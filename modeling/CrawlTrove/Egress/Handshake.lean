import CrawlTrove.Egress.Connecting

/-!
# Opening a tunnel

`EgressAgent.handle` (`app/egress_agent.py`) up to its answer, and
`MtlsConnectBridge._handle` (`app/acquisition/proxy.py`) from this answer on. What the
resolver says and whether a connection comes about is a parameter; TLS and the relay
after the handshake are not here.
-/

namespace CrawlTrove.Egress.Handshake

open Web (Text encodeAscii)
open Normalize (ScopedAddress)
open Connect (IdnaTables Result refuse normaliseHost parseConnect)

/-! ## The agent -/

/-- What the agent finds outside: the records of a host, `none` where the resolver fails,
and whether an address can be connected to. -/
structure Outside where
  getaddrinfo : Text → ℕ → Option (List Text)
  connects : Text → ℕ → Bool

/-- What the agent does for a request: the connection it makes, and its answer. -/
structure Answer where
  connection : Option (Text × ℕ) := none
  response : List UInt8

variable (tables : IdnaTables) (allowedPorts : List ℕ) (outside : Outside)

/-- `validate_connect_target`. -/
def validateConnectTarget (host : Text) (port : ℕ) : Result (List Text) :=
  match normaliseHost tables host with
  | .error failure => .error failure
  | .ok name =>
      match outside.getaddrinfo name port with
      | none => refuse "CONNECT target could not be resolved"
      | some addresses =>
          match validateAddresses addresses with
          | .error message => refuse message
          | .ok validated => .ok validated

/-- `_respond`. -/
def respond (status : ℕ) (reason : String) : List UInt8 :=
  encodeAscii ("HTTP/1.1 ".toList ++ Nat.toDigits 10 status ++ " ".toList ++ reason.toList ++
    "\r\nConnection: close\r\n\r\n".toList)

/-- `EgressAgent.handle`, up to its answer to the bytes that `readuntil` returned; `none` where
it raises and closes. -/
def handle (request : List UInt8) : Option Answer :=
  match parseConnect tables allowedPorts request with
  | .error (.connectError _) => some { response := respond 400 "Bad Request" }
  -- not a `ConnectError`, so nothing answers it
  | .error .valueError => none
  | .ok (host, port) =>
      match validateConnectTarget tables outside host port with
      | .error (.connectError _) => some { response := respond 400 "Bad Request" }
      | .error .valueError => none
      | .ok [] => none
      -- no other address is tried
      | .ok (connected :: _) =>
          if outside.connects connected port then
            some { connection := some (connected, port), response := attestation connected }
          else some { response := respond 502 "Bad Gateway" }

/-! ## The bridge -/

/-- `MtlsConnectBridge._handle` from the agent's answer on: the address of the tunnel it
opens, if `attest` accepts what the agent attests. -/
def opens (attest : Text → Bool) (answer : Option Answer) : Option Text :=
  match answer with
  | none => none
  | some answer =>
      match connectedIp answer.response with
      | .error _ => none
      | .ok address => if attest address then some address else none

/-! ## What a connection rests on -/

/-- The text of a public address. -/
def IsPublic (raw : Text) : Prop :=
  ∃ a, Normalize.ipAddress raw = some a ∧ isPublicTarget (classify a.address) = true

/-- A resolver writes a scope id as the name or the number of an interface. -/
def Outside.NamesInterfaces (outside : Outside) : Prop :=
  ∀ host port records, outside.getaddrinfo host port = some records →
    ∀ raw ∈ records, ∀ a, Normalize.ipAddress raw = some a → OfInterface a

/-- The address the agent picks for a request: the first record of its host, if all of the
records are public addresses. -/
def Candidate (request : List UInt8) (a : ScopedAddress) (port : ℕ) : Prop :=
  ∃ host name first rest, parseConnect tables allowedPorts request = .ok (host, port) ∧
    normaliseHost tables host = .ok name ∧ outside.getaddrinfo name port = some (first :: rest) ∧
      (∀ raw ∈ first :: rest, IsPublic raw) ∧ Normalize.ipAddress first = some a

/-- The agent may connect to the address: it is the candidate, and can be connected to. -/
def Warranted (request : List UInt8) (address : Text) (port : ℕ) : Prop :=
  ∃ a, Candidate tables allowedPorts outside request a port ∧ a.compressed = address ∧
    outside.connects address port = true

variable {tables allowedPorts outside}

/-- One record: it has to be a public address, and is added if its text is new. -/
theorem go_cons (result : List Text) (raw : Text) (rest : List Text) :
    (∃ a, Normalize.ipAddress raw = some a ∧ isPublicTarget (classify a.address) = true ∧
        validateAddresses.go result (raw :: rest) = validateAddresses.go
          (if result.contains a.compressed then result else result ++ [a.compressed]) rest) ∨
      ¬ IsPublic raw ∧ ∃ message, validateAddresses.go result (raw :: rest) = .error message := by
  rw [validateAddresses.go]
  cases hraw : Normalize.ipAddress raw with
  | none =>
      refine .inr ⟨?_, "DNS answer is not an IP address", ?_⟩
      · rintro ⟨a, ha, -⟩
        rw [hraw] at ha
        cases ha
      · rw [ipAddress, hraw, Option.map_none]
  | some a =>
      rw [ipAddress, hraw, Option.map_some]
      simp only [not_isPublicTarget, isPublicTarget_scoped]
      cases hpublic : isPublicTarget (classify a.address) with
      | true => exact .inl ⟨a, rfl, hpublic, rfl⟩
      | false =>
          refine .inr ⟨?_, _, rfl⟩
          rintro ⟨b, hb, hpublic'⟩
          rw [hraw] at hb
          obtain rfl := Option.some.inj hb
          rw [hpublic] at hpublic'
          cases hpublic'

/-- Either all records are public, and what was there before stays in front, or the loop
raises. -/
theorem go_cases (result raws : List Text) :
    ((∀ raw ∈ raws, IsPublic raw) ∧
        ∃ out, validateAddresses.go result raws = .ok out ∧ result <+: out) ∨
      ¬ (∀ raw ∈ raws, IsPublic raw) ∧
        ∃ message, validateAddresses.go result raws = .error message := by
  induction raws generalizing result with
  | nil => exact .inl ⟨by simp, result, rfl, List.prefix_rfl⟩
  | cons raw rest ih =>
      rcases go_cons result raw rest with ⟨a, ha, hpublic, hgo⟩ | ⟨hraw, message, hgo⟩
      · rw [hgo]
        rcases ih (if result.contains a.compressed then result else result ++ [a.compressed]) with
          ⟨hall, out, hout, hmore⟩ | ⟨hnot, message, hout⟩
        · refine .inl ⟨?_, out, hout, List.IsPrefix.trans ?_ hmore⟩
          · intro r hr
            rcases List.mem_cons.mp hr with rfl | hr
            · exact ⟨a, ha, hpublic⟩
            · exact hall r hr
          · split
            · exact List.prefix_rfl
            · exact List.prefix_append _ _
        · refine .inr ⟨?_, message, hout⟩
          exact fun hall => hnot fun r hr => hall r (List.mem_cons_of_mem raw hr)
      · refine .inr ⟨?_, message, hgo⟩
        exact fun hall => hraw (hall raw List.mem_cons_self)

/-- The agent connects to the first record, if every record is a public address. -/
theorem validateAddresses_cases (raws : List Text) :
    (∃ first rest a more, raws = first :: rest ∧ (∀ raw ∈ raws, IsPublic raw) ∧
        Normalize.ipAddress first = some a ∧
          validateAddresses raws = .ok (a.compressed :: more)) ∨
      (raws = [] ∨ ¬ ∀ raw ∈ raws, IsPublic raw) ∧
        ∃ message, validateAddresses raws = .error message := by
  cases raws with
  | nil => exact .inr ⟨.inl rfl, _, rfl⟩
  | cons first rest =>
      rcases go_cases [] (first :: rest) with ⟨hall, out, hout, -⟩ | ⟨hnot, message, hout⟩
      · obtain ⟨a, ha, hpublic⟩ := hall first List.mem_cons_self
        -- the first record is new, and stays in front
        have hgo : validateAddresses.go [a.compressed] rest = .ok out := by
          rw [← hout, validateAddresses.go, ipAddress, ha, Option.map_some]
          simp only [not_isPublicTarget, isPublicTarget_scoped, hpublic]
          rfl
        rcases go_cases [a.compressed] rest with ⟨-, out', hout', hfirst⟩ | ⟨-, message, herror⟩
        · rw [hgo] at hout'
          obtain rfl := Except.ok.inj hout'
          obtain ⟨more, rfl⟩ := hfirst
          refine .inl ⟨first, rest, a, more, rfl, hall, ha, ?_⟩
          show (validateAddresses.go [] (first :: rest) >>= _) = _
          rw [hout]
          rfl
        · rw [hgo] at herror
          cases herror
      · refine .inr ⟨.inr hnot, message, ?_⟩
        show (validateAddresses.go [] (first :: rest) >>= _) = _
        rw [hout]
        rfl

/-! ## The answers -/

theorem connectedIp_badRequest : connectedIp (respond 400 "Bad Request") =
    .error (.valueError "egress CONNECT was refused") := by rfl

theorem connectedIp_badGateway : connectedIp (respond 502 "Bad Gateway") =
    .error (.valueError "egress CONNECT was refused") := by rfl

/-- Nothing is connected, and no bridge opens a tunnel on the answer. -/
def Refuses (answer : Option Answer) : Prop :=
  answer.bind Answer.connection = none ∧ ∀ attest, opens attest answer = none

theorem refuses_none : Refuses none := ⟨rfl, fun _ => rfl⟩

theorem refuses_of_error {response : List UInt8} {failure : BridgeError}
    (h : connectedIp response = .error failure) : Refuses (some { response := response }) := by
  refine ⟨rfl, fun attest => ?_⟩
  show (match connectedIp response with
    | .error _ => none
    | .ok address => if attest address then some address else none) = none
  rw [h]

/-! ## The agent's decision -/

/-- The target is validated if its records are public addresses, with the first of them in
front. -/
theorem validateConnectTarget_cases (host : Text) (port : ℕ) :
    (∃ name first rest a more, normaliseHost tables host = .ok name ∧
        outside.getaddrinfo name port = some (first :: rest) ∧
          (∀ raw ∈ first :: rest, IsPublic raw) ∧ Normalize.ipAddress first = some a ∧
            validateConnectTarget tables outside host port = .ok (a.compressed :: more)) ∨
      (∃ failure, validateConnectTarget tables outside host port = .error failure) ∧
        ∀ name first rest, normaliseHost tables host = .ok name →
          outside.getaddrinfo name port = some (first :: rest) →
            ¬ ∀ raw ∈ first :: rest, IsPublic raw := by
  unfold validateConnectTarget
  cases hname : normaliseHost tables host with
  | error failure =>
      refine .inr ⟨⟨failure, rfl⟩, ?_⟩
      intro name first rest hok
      cases hok
  | ok name =>
      cases hrecords : outside.getaddrinfo name port with
      | none =>
          refine .inr ⟨⟨_, by simp only [hrecords]; rfl⟩, ?_⟩
          intro name' first rest hok hsome
          obtain rfl := Except.ok.inj hok
          rw [hrecords] at hsome
          cases hsome
      | some records =>
          simp only [hrecords]
          rcases validateAddresses_cases records with
            ⟨first, rest, a, more, rfl, hall, ha, hvalid⟩ | ⟨hnot, message, hvalid⟩
          · rw [hvalid]
            exact .inl ⟨name, first, rest, a, more, rfl, hrecords, hall, ha, rfl⟩
          · rw [hvalid]
            refine .inr ⟨⟨_, rfl⟩, ?_⟩
            intro name' first rest hok hsome hall
            obtain rfl := Except.ok.inj hok
            rw [hrecords] at hsome
            obtain rfl := Option.some.inj hsome
            rcases hnot with hnil | hnot
            · cases hnil
            · exact hnot hall

variable {request : List UInt8}

namespace Candidate

variable {a b : ScopedAddress} {port port' : ℕ}

theorem unique (h : Candidate tables allowedPorts outside request a port)
    (h' : Candidate tables allowedPorts outside request b port') : a = b ∧ port = port' := by
  obtain ⟨host, name, first, rest, hparse, hname, hrecords, -, ha⟩ := h
  obtain ⟨host', name', first', rest', hparse', hname', hrecords', -, hb⟩ := h'
  rw [hparse] at hparse'
  obtain ⟨rfl, rfl⟩ := Prod.mk.inj (Except.ok.inj hparse')
  rw [hname] at hname'
  obtain rfl := Except.ok.inj hname'
  rw [hrecords] at hrecords'
  obtain ⟨rfl, -⟩ := List.cons.inj (Option.some.inj hrecords')
  rw [ha] at hb
  exact ⟨Option.some.inj hb, rfl⟩

/-- The bridge reads the address the agent attests. -/
theorem attested (hscopes : outside.NamesInterfaces)
    (h : Candidate tables allowedPorts outside request a port) :
    connectedIp (attestation a.compressed) = .ok a.compressed := by
  obtain ⟨host, name, first, rest, -, -, hrecords, hall, ha⟩ := h
  obtain ⟨b, hb, hpublic⟩ := hall first List.mem_cons_self
  rw [ha] at hb
  obtain rfl := Option.some.inj hb
  have hscope := hscopes name port (first :: rest) hrecords first List.mem_cons_self a ha
  rw [connectedIp_scoped ha hscope, if_pos hpublic]

end Candidate

/-- There is one address at most to connect to. -/
theorem Warranted.unique {address address' : Text} {port port' : ℕ}
    (h : Warranted tables allowedPorts outside request address port)
    (h' : Warranted tables allowedPorts outside request address' port') :
    address = address' ∧ port = port' := by
  obtain ⟨a, ha, rfl, -⟩ := h
  obtain ⟨b, hb, rfl, -⟩ := h'
  obtain ⟨rfl, rfl⟩ := ha.unique hb
  exact ⟨rfl, rfl⟩

/-- A warranted request is answered with its connection; any other one is refused. -/
theorem handle_cases (request : List UInt8) :
    (∃ a port, Candidate tables allowedPorts outside request a port ∧
        outside.connects a.compressed port = true ∧ handle tables allowedPorts outside request =
          some { connection := some (a.compressed, port), response := attestation a.compressed }) ∨
      (∀ address port, ¬ Warranted tables allowedPorts outside request address port) ∧
        Refuses (handle tables allowedPorts outside request) := by
  unfold handle
  cases hparse : parseConnect tables allowedPorts request with
  | error failure =>
      refine .inr ⟨?_, ?_⟩
      · rintro address port ⟨a, ⟨host, name, first, rest, hok, -⟩, -⟩
        rw [hparse] at hok
        cases hok
      · cases failure with
        | connectError message => exact refuses_of_error connectedIp_badRequest
        | valueError => exact refuses_none
  | ok target =>
      obtain ⟨host, port⟩ := target
      rcases validateConnectTarget_cases host port with
        ⟨name, first, rest, a, more, hname, hrecords, hall, ha, hvalid⟩ |
          ⟨⟨failure, hvalid⟩, hnot⟩
      · have hcandidate : Candidate tables allowedPorts outside request a port :=
          ⟨host, name, first, rest, hparse, hname, hrecords, hall, ha⟩
        simp only [hvalid]
        cases hconnects : outside.connects a.compressed port with
        | true => exact .inl ⟨a, port, hcandidate, hconnects, rfl⟩
        | false =>
            -- the agent answers 502, and the bridge reads no address out of it
            refine .inr ⟨?_, refuses_of_error connectedIp_badGateway⟩
            rintro address port' ⟨b, hb, rfl, hconnects'⟩
            obtain ⟨rfl, rfl⟩ := hcandidate.unique hb
            rw [hconnects] at hconnects'
            cases hconnects'
      · simp only [hvalid]
        refine .inr ⟨?_, ?_⟩
        · rintro address port' ⟨a, ⟨host', name, first, rest, hparse', hname, hrecords, hall, -⟩, -⟩
          rw [hparse] at hparse'
          obtain ⟨rfl, rfl⟩ := Prod.mk.inj (Except.ok.inj hparse')
          exact hnot name first rest hname hrecords hall
        · cases failure with
          | connectError message => exact refuses_of_error connectedIp_badRequest
          | valueError => exact refuses_none

/-- The agent connects exactly where it may, and the bridge opens a tunnel exactly to the
address the agent is connected to, if `attest` accepts it. -/
theorem tunnel_opens_iff (hscopes : outside.NamesInterfaces) (attest : Text → Bool)
    (request : List UInt8) (address : Text) :
    (∀ port, (handle tables allowedPorts outside request).bind Answer.connection =
        some (address, port) ↔ Warranted tables allowedPorts outside request address port) ∧
      (opens attest (handle tables allowedPorts outside request) = some address ↔
        (∃ port, Warranted tables allowedPorts outside request address port) ∧
          attest address = true) := by
  have hcases := @handle_cases tables allowedPorts outside request
  rcases hcases with ⟨a, port', hcandidate, hconnects, hanswer⟩ | ⟨hnone, hconnection, hopens⟩
  · have hwarranted : Warranted tables allowedPorts outside request a.compressed port' :=
      ⟨a, hcandidate, rfl, hconnects⟩
    rw [hanswer]
    constructor
    · intro port
      show some (a.compressed, port') = some (address, port) ↔ _
      constructor
      · intro h
        obtain ⟨rfl, rfl⟩ := Prod.mk.inj (Option.some.inj h)
        exact hwarranted
      · intro h
        obtain ⟨rfl, rfl⟩ := hwarranted.unique h
        rfl
    · show (match connectedIp (attestation a.compressed) with
        | .error _ => none
        | .ok address => if attest address then some address else none) = some address ↔ _
      rw [hcandidate.attested hscopes]
      constructor
      · intro h
        obtain ⟨hattest, h⟩ := Option.ite_none_right_eq_some.mp h
        obtain rfl := Option.some.inj h
        exact ⟨⟨port', hwarranted⟩, hattest⟩
      · rintro ⟨⟨port, h⟩, hattest⟩
        obtain ⟨rfl, -⟩ := hwarranted.unique h
        exact if_pos hattest
  · -- the request is refused, and no address is warranted
    refine ⟨fun port => ?_, ?_⟩
    · rw [hconnection]
      exact ⟨nofun, fun h => absurd h (hnone address port)⟩
    · rw [hopens attest]
      exact ⟨nofun, fun ⟨⟨port, h⟩, _⟩ => absurd h (hnone address port)⟩

/-! ## A record with a scope id -/

def scopedRecord : Text := "2606:4700:4700::1111%1".toList

def scopedAddress : ScopedAddress :=
  ⟨.v6 ⟨0x26064700470000000000000000001111, by decide⟩, some ['1']⟩

def scopedOutside : Outside where
  getaddrinfo _ _ := some [scopedRecord]
  connects _ _ := true

theorem ipAddress_scopedRecord : Normalize.ipAddress scopedRecord =
    some scopedAddress := by decide

theorem namesInterfaces_scopedOutside : scopedOutside.NamesInterfaces := by
  rintro host port records ⟨⟩ raw hraw a ha
  obtain rfl := List.mem_singleton.mp hraw
  rw [ipAddress_scopedRecord] at ha
  obtain rfl := Option.some.inj ha
  rintro scope ⟨⟩ c hc
  obtain rfl := List.mem_singleton.mp hc
  decide

theorem tunnel_opens_iff_scoped :
    opens (fun _ => true) (handle Connect.asciiTables [443] scopedOutside
      (Connect.connectRequest ['a'] 443)) = some scopedRecord := by
  refine (tunnel_opens_iff namesInterfaces_scopedOutside (fun _ => true)
    (Connect.connectRequest ['a'] 443) scopedRecord).2.mpr ⟨⟨443, scopedAddress, ?_, ?_, rfl⟩,
      rfl⟩
  · refine ⟨['a'], ['a'], scopedRecord, [], by decide, by decide, rfl, ?_,
      ipAddress_scopedRecord⟩
    intro raw hraw
    obtain rfl := List.mem_singleton.mp hraw
    exact ⟨scopedAddress, ipAddress_scopedRecord, by decide⟩
  · decide

end CrawlTrove.Egress.Handshake
