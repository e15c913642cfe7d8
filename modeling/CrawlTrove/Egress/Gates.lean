import CrawlTrove.Acquisition.Fetch
import CrawlTrove.Corpus.Chunking
import CrawlTrove.Normalize.Scoped
import CrawlTrove.Proxies.Runs
import CrawlTrove.Web.Ascii
import CrawlTrove.Web.Networks

/-!
# The gates for public addresses

Five places decide whether an address is public: `validate_addresses`
(`app/egress_agent.py`), `_is_public_address` (`app/url_safety.py`), `_connected_ip` and
`record_connected_ip` (`app/acquisition/proxy.py`) and `record_proxy_ip`
(`0009_proxy_worker_protocol.sql`). Three of them ask the same of `ipaddress`, one asks
more, and the one in SQL has a list of its own. `ipaddress` and `urlsplit` are those of
Python 3.11.10, as newer patch releases refuse text beside a bracketed host.
-/

namespace CrawlTrove.Egress

open Web Acquisition
open Inet hiding Text
open Relational Transaction
open Proxies (Pool PoolTxn HostTables Fence)
open Normalize (ScopedAddress)

/-! ## Addresses as objects -/

/-- `_NAT64_NETWORKS`. -/
def nat64Networks : List IpNetwork := [net6 [0x64, 0xff9b] 96, net6 [0x64, 0xff9b, 1] 48]

/-- The address with the answers of its properties. -/
def classify (a : Address) : IpAddress :=
  match a with
  | .v4 n =>
      { text := a.text, isV6 := false, isGlobal := V4.isGlobal n
        isMulticast := V4.multicastNetwork.holds n, isReserved := V4.reservedNetwork.holds n
        isUnspecified := n.val = 0, isLoopback := V4.loopbackNetwork.holds n
        isLinkLocal := V4.linklocalNetwork.holds n, isPrivate := V4.isPrivate n
        isSiteLocal := false, ipv4Mapped := false, sixtofour := false, teredo := false
        nat64 := false }
  | .v6 n =>
      { text := a.text, isV6 := true, isGlobal := V6.isGlobal n
        isMulticast := V6.multicastNetwork.holds n, isReserved := within V6.reservedNetworks n
        isUnspecified := n.val = 0, isLoopback := n.val = 1
        isLinkLocal := V6.linklocalNetwork.holds n, isPrivate := V6.isPrivate n
        isSiteLocal := V6.sitelocalNetwork.holds n, ipv4Mapped := (V6.ipv4Mapped n).isSome
        sixtofour := (V6.sixtofour n).isSome, teredo := (V6.teredo n).isSome
        nat64 := within nat64Networks n }

/-- No property but the text shows the scope id. -/
def classifyScoped (a : ScopedAddress) : IpAddress :=
  { classify a.address with text := a.compressed }

/-- `ipaddress.ip_address`. -/
def ipAddress (s : Text) : Option IpAddress := (Normalize.ipAddress s).map classifyScoped

/-- The address as a value of type `INET`. -/
def hostInet : Address → Proxies.Inet
  | .v4 n => ⟨false, n, 32⟩
  | .v6 n => ⟨true, n, 128⟩

/-- Tables that read addresses. -/
def addressTables (tables : HostTables) : HostTables :=
  { tables with
    ipAddress := ipAddress
    inet := fun s => ((parse s).map hostInet).getD (Proxies.v4 0 0 0 0 32) }

/-! ## The agent -/

/-- The loop of `validate_addresses`. -/
def validateAddresses.go (result : List Text) : List Text → Except String (List Text)
  | [] => .ok result
  | raw :: rest =>
      match ipAddress raw with
      | none => .error "DNS answer is not an IP address"
      | some address =>
          if !address.isGlobal || address.isMulticast || address.isUnspecified then
            .error "CONNECT target must resolve only to public addresses"
          else
            go (if result.contains address.text then result else result ++ [address.text]) rest

/-- `validate_addresses`. -/
def validateAddresses (addresses : List Text) : Except String (List Text) := do
  let result ← validateAddresses.go [] addresses
  if result.isEmpty then throw "CONNECT target must resolve to public addresses"
  return result

/-! ## The bridge -/

/-- Why the bridge gives up on an answer. -/
inductive BridgeError
  | unicodeDecodeError
  | valueError (message : String)
deriving DecidableEq

/-- The lower-case name of the header that attests the address, with its colon. -/
def connectedIpHeader : Text := "x-crawltrove-connected-ip:".toList

/-- `line.split(":", 1)[1].strip()`, for a line with a colon. -/
def fieldValue (line : Text) : Text := Corpus.trim (partition ':' line).2.2

/-- `MtlsConnectBridge._connected_ip`. -/
def connectedIp (response : List UInt8) : Except BridgeError Text :=
  match decodeAscii response with
  | none => .error .unicodeDecodeError
  | some text =>
      match splitCrlf text with
      | [] => .error (.valueError "egress CONNECT was refused")
      | first :: lines =>
          if !"HTTP/1.1 200 ".toList.isPrefixOf first then
            .error (.valueError "egress CONNECT was refused")
          else
            match (lines.filter fun line =>
                connectedIpHeader.isPrefixOf (line.map Char.toLower)).map fieldValue with
            | [value] =>
                match ipAddress value with
                | none => .error (.valueError "does not appear to be an IPv4 or IPv6 address")
                | some address =>
                    if !address.isGlobal || address.isMulticast || address.isUnspecified then
                      .error (.valueError "egress CONNECT attested a non-public IP")
                    else .ok address.text
            | _ => .error (.valueError "egress CONNECT did not attest one connected IP")

/-- The answer of `EgressAgent.handle` once it is connected. -/
def attestation (connected : Text) : List UInt8 :=
  encodeAscii ("HTTP/1.1 200 Connection Established\r\n".toList ++
    "X-CrawlTrove-Connected-IP: ".toList ++ connected ++ "\r\n\r\n".toList)

/-! ## Leases -/

/-- A lease of a node by a remote worker, which `record_connected_ip` and
`record_proxy_ip` can write the connected address of. -/
structure LiveLease where
  tables : HostTables
  txn : PoolTxn
  role : String
  worker : Worker
  fence : Fence
  nodeId : String
  pool : Pool
  identified : CrawlTrove.WorkerApi.identity role false pool.store = .ok (worker, pool.store)
  leased : pool.leased nodeId fence.taskId fence.token
    (fun l => decide (txn.now < l.expiresAt)) = true
  held : pool.taskLeased fence.taskId fence.token (some worker.id) = true
  known : pool.nodes.any (fun n => n.id = nodeId) = true

/-- What a statement returns, if it does not raise. -/
def returned {α : Type} (m : Proxies.PoolTx α) (p : Pool) : Option α :=
  (m p).toOption.map Prod.fst

/-- What `record_connected_ip` says to the text of the address. -/
def LiveLease.connected (lease : LiveLease) (a : Address) : Option Bool :=
  returned (Proxies.recordConnectedIp (addressTables lease.tables) lease.txn lease.fence
    lease.nodeId (String.ofList a.text)) lease.pool

/-- What `record_proxy_ip` says to the text of the address. -/
def LiveLease.proxied (lease : LiveLease) (a : Address) : Option Bool :=
  returned (Proxies.WorkerApi.recordProxyIp lease.txn lease.role lease.fence lease.nodeId
    (some ((addressTables lease.tables).inet a.text))) lease.pool

/-! ## What the gates accept -/

def AgentAccepts (a : Address) : Prop := validateAddresses [a.text] = .ok [a.text]

def UrlAccepts (a : Address) : Prop := isPublicAddress (classify a) = true

def BridgeAccepts (a : Address) : Prop := connectedIp (attestation a.text) = .ok a.text

def LiveLease.PoolAccepts (lease : LiveLease) (a : Address) : Prop :=
  lease.connected a = some true

def LiveLease.ProtocolAccepts (lease : LiveLease) (a : Address) : Prop :=
  lease.proxied a = some true

/-- The IPv4 addresses that an address of a transition form embeds. The last network has
no fixed layout: its operator puts the address after 48 bits, around an unused octet, or at
the end. -/
def embedded (n : ℕ) : List ℕ :=
  (V6.ipv4Mapped n).toList ++ (V6.sixtofour n).toList ++
    (match V6.teredo n with
      | some (server, client) => [server, client]
      | none => []) ++
    (if (net6 [0x64, 0xff9b] 96).holds n then [n % 2 ^ 32] else []) ++
    (if (net6 [0x64, 0xff9b, 1] 48).holds n then
      [n / 2 ^ 64 % 2 ^ 16 * 2 ^ 16 + n / 2 ^ 40 % 2 ^ 16, n % 2 ^ 32]
    else [])

/-- The address is of a transition form and embeds an IPv4 address that is not public. -/
def EmbedsNonPublic : Address → Prop
  | .v4 _ => False
  | .v6 n => ∃ m ∈ embedded n, ∀ m' : Fin (2 ^ 32), m'.val = m → ¬ UrlAccepts (.v4 m')

/-- All gates say the same to an address, and no to a non-public one in disguise. -/
structure LiveLease.Agree (lease : LiveLease) (a : Address) : Prop where
  url : AgentAccepts a ↔ UrlAccepts a
  bridge : AgentAccepts a ↔ BridgeAccepts a
  pool : AgentAccepts a ↔ lease.PoolAccepts a
  protocol : AgentAccepts a ↔ lease.ProtocolAccepts a
  disguised : EmbedsNonPublic a → ¬ AgentAccepts a ∧ ¬ UrlAccepts a ∧ ¬ BridgeAccepts a ∧
    ¬ lease.PoolAccepts a ∧ ¬ lease.ProtocolAccepts a

/-- What the agent, the bridge and the pool ask. -/
def isPublicTarget (address : IpAddress) : Bool :=
  address.isGlobal && !address.isMulticast && !address.isUnspecified

/-! ## IPv4 -/

/-- The networks between the answer of `ipaddress` and the list of `record_proxy_ip`: two
addresses that are globally reachable, and the relays of a transition form. -/
def disputed4 : List IpNetwork :=
  [net4 192 0 0 9 32, net4 192 0 0 10 32, net4 192 88 99 0 24]

theorem within_v4 (n : Fin (2 ^ 32)) (a b c d : ℕ) {length : ℕ} (h : length ≤ 32) :
    (hostInet (.v4 n)).within (Proxies.v4 a b c d length) = (net4 a b c d length).holds n := by
  simp only [hostInet, Proxies.v4, Proxies.Inet.within, Proxies.Inet.bits, Nat.shiftRight_eq_div_pow,
    net4, IpNetwork.holds, fold, List.foldl, h, decide_true, Bool.true_and, Bool.false_eq_true,
    if_false, Nat.zero_mul, Nat.zero_add]

theorem within_v4_v6 (n : Fin (2 ^ 32)) (a b length : ℕ) :
    (hostInet (.v4 n)).within (Proxies.v6 a b length) = false := by
  simp [hostInet, Proxies.v6, Proxies.Inet.within]

/-- `224.0.0.0/3` is the multicast network and the one above it. -/
theorem holds_upper (n : Fin (2 ^ 32)) :
    (net4 224 0 0 0 3).holds n = (V4.multicastNetwork.holds n || V4.reservedNetwork.holds n) := by
  have h := n.isLt
  rw [Bool.eq_iff_iff, Bool.or_eq_true, IpNetwork.holds_iff, IpNetwork.holds_iff,
    IpNetwork.holds_iff]
  norm_num [V4.multicastNetwork, V4.reservedNetwork, net4, fold]
  omega

/-- The list of `record_proxy_ip`, as `ipaddress` has it. -/
theorem refused_v4 (n : Fin (2 ^ 32)) :
    (hostInet (.v4 n)).refused = (V4.publicNetwork.holds n || within V4.privateNetworks n ||
      V4.multicastNetwork.holds n || (net4 192 88 99 0 24).holds n) := by
  have hbits : (hostInet (.v4 n)).isV6 = false := rfl
  have hnarrow : (net4 192 0 0 170 31).holds n = true → (net4 192 0 0 0 24).holds n = true :=
    IpNetwork.holds_of_within (by decide)
  have hlast : (net4 255 255 255 255 32).holds n = true → (net4 240 0 0 0 4).holds n = true :=
    IpNetwork.holds_of_within (by decide)
  simp (disch := decide) only [Proxies.Inet.refused, Proxies.refusedNetworks, List.any_cons,
    List.any_nil, hbits, within_v4_v6, Bool.or_false, Bool.false_and, within_v4, holds_upper,
    V4.privateNetworks, within, V4.publicNetwork, V4.reservedNetwork]
  grind

theorem holds_zero4 (n : Fin (2 ^ 32)) (h : n.val = 0) : (net4 0 0 0 0 8).holds n = true := by
  rw [h]
  decide

/-- The networks with a property of their own are private, and no exception lies in them. -/
theorem isPrivate_of_special (n : Fin (2 ^ 32))
    (h : V4.reservedNetwork.holds n = true ∨ n.val = 0 ∨ V4.loopbackNetwork.holds n = true ∨
      V4.linklocalNetwork.holds n = true) : V4.isPrivate n = true := by
  have hspecial : within [net4 240 0 0 0 4, net4 0 0 0 0 8, net4 127 0 0 0 8,
      net4 169 254 0 0 16] n = true := by
    rcases h with h | h | h | h
    · exact within_of_mem (by decide) h
    · exact within_of_mem (by decide) (holds_zero4 n h)
    · exact within_of_mem (by decide) h
    · exact within_of_mem (by decide) h
  rw [V4.isPrivate, within_of_within (by decide) hspecial,
    not_within_of_within (by decide) hspecial]
  rfl

/-- The extra questions of `_is_public_address` change nothing. -/
theorem isPublicAddress_v4 (n : Fin (2 ^ 32)) :
    isPublicAddress (classify (.v4 n)) = isPublicTarget (classify (.v4 n)) := by
  have hprivate := isPrivate_of_special n
  simp only [isPublicAddress, isPublicTarget, classify, V4.isGlobal, Bool.false_eq_true, if_false]
  grind

theorem target_v4_iff (n : Fin (2 ^ 32)) :
    (isPublicTarget (classify (.v4 n)) = true ↔ (hostInet (.v4 n)).refused = false) ↔
      within disputed4 n = false := by
  have hzero : n.val = 0 → V4.isPrivate n = true := fun h => isPrivate_of_special n (by simp [h])
  have hinner : within V4.privateNetworksExceptions n = true →
      within V4.privateNetworks n = true := within_of_within (by decide)
  have hexception : within V4.privateNetworksExceptions n = true →
      V4.publicNetwork.holds n = false ∧ V4.multicastNetwork.holds n = false := by
    intro h
    have hapart : within [V4.publicNetwork, V4.multicastNetwork] n = false :=
      not_within_of_within (by decide) h
    simpa [within] using hapart
  have hrelay : (net4 192 88 99 0 24).holds n = true → V4.publicNetwork.holds n = false ∧
      V4.multicastNetwork.holds n = false ∧ within V4.privateNetworks n = false := by
    intro h
    exact ⟨IpNetwork.not_holds_of_apart (by decide) h, IpNetwork.not_holds_of_apart (by decide) h,
      not_within_of_apart (by decide) h⟩
  have hdisputed : within disputed4 n =
      (within V4.privateNetworksExceptions n || (net4 192 88 99 0 24).holds n) := by
    simp [within, disputed4, V4.privateNetworksExceptions, Bool.or_assoc]
  rw [refused_v4, hdisputed]
  simp only [isPublicTarget, classify, V4.isGlobal, V4.isPrivate] at hzero ⊢
  grind

/-! ## IPv6 -/

/-- `2000::/3`, where all unicast addresses of the Internet are. -/
def unicastNetwork : IpNetwork := net6 [0x2000] 3

/-- The network of the IPv4-mapped addresses. -/
def mappedNetwork : IpNetwork := net6 [0, 0, 0, 0, 0, 0xffff] 96

/-- The networks outside `2000::/3` that `ipaddress` calls private or multicast. -/
def closed6 : List IpNetwork :=
  [net6 [0, 0, 0, 0, 0, 0, 0, 1] 128, net6 [0] 128, net6 [0x64, 0xff9b, 1] 48, net6 [0x100] 64,
    net6 [0xfc00] 7, net6 [0xfe80] 10, net6 [0xff00] 8]

theorem within_v6 (n : Fin (2 ^ 128)) (a b : ℕ) {length : ℕ} (h : length ≤ 128) :
    (hostInet (.v6 n)).within (Proxies.v6 a b length) = (net6 [a, b] length).holds n := by
  simp only [hostInet, Proxies.v6, Proxies.Inet.within, Proxies.Inet.bits, Nat.shiftRight_eq_div_pow,
    net6, IpNetwork.holds, fold, List.foldl, List.length_cons, List.length_nil, h, decide_true,
    Bool.true_and, if_true, Nat.zero_mul, Nat.zero_add, Nat.reduceAdd, Nat.reduceMul, Nat.reduceSub]

theorem within_v6_v4 (n : Fin (2 ^ 128)) (a b c d length : ℕ) :
    (hostInet (.v6 n)).within (Proxies.v4 a b c d length) = false := by
  simp [hostInet, Proxies.v4, Proxies.Inet.within]

theorem refused_v6 (n : Fin (2 ^ 128)) :
    (hostInet (.v6 n)).refused = (within [net6 [0x2001, 0xdb8] 32, net6 [0xfc00, 0] 7,
      net6 [0xfe80, 0] 10, net6 [0xff00, 0] 8] n || !unicastNetwork.holds n) := by
  have hbits : (hostInet (.v6 n)).isV6 = true := rfl
  have hunicast : net6 [0x2000, 0] 3 = unicastNetwork := by decide
  simp (disch := decide) only [Proxies.Inet.refused, Proxies.refusedNetworks, List.any_cons,
    List.any_nil, hbits, within_v6_v4, Bool.or_false, Bool.false_or, Bool.true_and, within_v6,
    within, hunicast]

/-- An address of a transition form is recognised by its prefix. -/
theorem isSome_form {α : Type} {net : IpNetwork} {e k : ℕ} (hfree : net.free = e)
    (hfirst : net.first / 2 ^ e = k) (n : ℕ) (a : α) :
    (if n / 2 ^ e = k then some a else none).isSome = net.holds n := by
  subst hfree
  subst hfirst
  by_cases h : n / 2 ^ net.free = net.first / 2 ^ net.free
  · rw [if_pos h]
    exact (decide_eq_true h).symm
  · rw [if_neg h]
    exact (decide_eq_false h).symm

theorem isSome_ipv4Mapped (n : ℕ) : (V6.ipv4Mapped n).isSome = mappedNetwork.holds n :=
  isSome_form (by decide) (by decide) n _

theorem isSome_sixtofour (n : ℕ) : (V6.sixtofour n).isSome = (net6 [0x2002] 16).holds n :=
  isSome_form (by decide) (by decide) n _

theorem isSome_teredo (n : ℕ) : (V6.teredo n).isSome = (net6 [0x2001, 0] 32).holds n :=
  isSome_form (by decide) (by decide) n _

theorem isPrivate_v6 {n : ℕ} (h : mappedNetwork.holds n = false) :
    V6.isPrivate n = (within V6.privateNetworks n && !within V6.privateNetworksExceptions n) := by
  have hnone : V6.ipv4Mapped n = none := by
    rw [← Option.isNone_iff_eq_none, ← Option.not_isSome, isSome_ipv4Mapped, h]
    rfl
  simp only [V6.isPrivate, hnone]

/-- Outside `2000::/3` an address is reserved, local or multicast: ten bits decide. -/
theorem within_outside (n : Fin (2 ^ 128)) (h : unicastNetwork.holds n = false) :
    within (V6.reservedNetworks ++
      [net6 [0xfc00] 7, V6.linklocalNetwork, V6.sitelocalNetwork, V6.multicastNetwork]) n = true := by
  have htop : ∀ k < 1024, ¬ k / 2 ^ 7 = 1 → ∃ net ∈ V6.reservedNetworks ++
      [net6 [0xfc00] 7, V6.linklocalNetwork, V6.sitelocalNetwork, V6.multicastNetwork],
      118 ≤ net.free ∧ k / 2 ^ (net.free - 118) = net.first / 2 ^ net.free := by
    decide +kernel
  have hk : n.val / 2 ^ 118 < 1024 := by
    have := n.isLt
    omega
  have hunicast : ¬ n.val / 2 ^ 118 / 2 ^ 7 = 1 := by
    rw [IpNetwork.holds_coarse (e := 118) (by decide)] at h
    exact of_decide_eq_false h
  obtain ⟨net, hmem, hfree, hnet⟩ := htop _ hk hunicast
  exact within_of_mem hmem ((IpNetwork.holds_coarse hfree n).trans (decide_eq_true hnet))

/-- No address outside `2000::/3` is public for `_is_public_address`. -/
theorem isPublicAddress_outside (n : Fin (2 ^ 128)) (h : unicastNetwork.holds n = false) :
    isPublicAddress (classify (.v6 n)) = false := by
  have hlocal : (net6 [0xfc00] 7).holds n = true → V6.isPrivate n = true := by
    intro hn
    rw [isPrivate_v6 (IpNetwork.not_holds_of_apart (by decide) hn),
      within_of_mem (by decide) hn, not_within_of_apart (by decide) hn]
    rfl
  have hwithin := within_outside n h
  rw [within, List.any_append, Bool.or_eq_true] at hwithin
  simp only [List.any_cons, List.any_nil, Bool.or_false, Bool.or_eq_true] at hwithin
  simp only [isPublicAddress, classify]
  rw [if_pos]
  rcases hwithin with hn | hn | hn | hn | hn
  · simp [within, hn]
  · simp [hlocal hn]
  · simp [hn]
  · simp [hn]
  · simp [hn]

/-- What the agent accepts outside `2000::/3`. -/
theorem isPublicTarget_outside (n : Fin (2 ^ 128)) (h : unicastNetwork.holds n = false) :
    isPublicTarget (classify (.v6 n)) = false ↔
      (mappedNetwork.holds n = true ∧ V4.isPrivate (n.val % 2 ^ 32) = true) ∨
        within closed6 n = true := by
  have hzero : n.val = 0 → (net6 [0] 128).holds n = true := by
    intro hn
    rw [hn]
    decide
  cases hmapped : mappedNetwork.holds n with
  | true =>
      have hprivate : V6.isPrivate n = V4.isPrivate (n.val % 2 ^ 32) := by
        have hsome := isSome_ipv4Mapped n.val
        rw [hmapped, V6.ipv4Mapped] at hsome
        rw [V6.isPrivate, V6.ipv4Mapped]
        by_cases hn : n.val / 2 ^ 32 = 0xffff
        · rw [if_pos hn]
        · rw [if_neg hn] at hsome
          cases hsome
      have hclosed : within closed6 n = false := not_within_of_apart (by decide) hmapped
      have hmulticast : V6.multicastNetwork.holds n = false :=
        IpNetwork.not_holds_of_apart (by decide) hmapped
      have hnonzero : ¬ n.val = 0 := by
        intro hn
        have hnot : (net6 [0] 128).holds n = false :=
          IpNetwork.not_holds_of_apart (by decide) hmapped
        rw [hzero hn] at hnot
        cases hnot
      simp [isPublicTarget, classify, V6.isGlobal, hprivate, hclosed, hmulticast, hnonzero]
  | false =>
      have hprivate := isPrivate_v6 hmapped
      have hexception : within V6.privateNetworksExceptions n = true →
          within [unicastNetwork] n = true := within_of_within (by decide)
      have hinside : within [net6 [0x2001] 23, net6 [0x2001, 0xdb8] 32, net6 [0x2002] 16] n = true →
          within [unicastNetwork] n = true := within_of_within (by decide)
      rw [within_singleton] at hexception hinside
      simp only [isPublicTarget, classify, V6.isGlobal, hprivate, V6.privateNetworks, closed6,
        within, V6.multicastNetwork, List.any_cons, List.any_nil] at hmapped hexception hinside ⊢
      simp only [mappedNetwork] at hmapped
      grind

/-- The networks of `2000::/3` that `record_proxy_ip` does not know. -/
def disputed6 (n : ℕ) : Bool :=
  ((net6 [0x2001] 23).holds n && !within V6.privateNetworksExceptions n) ||
    (net6 [0x2002] 16).holds n

/-- What `ipaddress` calls private inside `2000::/3`. -/
theorem isPrivate_inside (n : Fin (2 ^ 128)) (h : unicastNetwork.holds n = true) :
    V6.isPrivate n = (disputed6 n || (net6 [0x2001, 0xdb8] 32).holds n) := by
  have hmapped : mappedNetwork.holds n = false := IpNetwork.not_holds_of_apart (by decide) h
  have hothers : within [net6 [0, 0, 0, 0, 0, 0, 0, 1] 128, net6 [0] 128,
      net6 [0, 0, 0, 0, 0, 0xffff] 96, net6 [0x64, 0xff9b, 1] 48, net6 [0x100] 64,
      net6 [0xfc00] 7, net6 [0xfe80] 10] n = false := not_within_of_apart (by decide) h
  have hexception : within V6.privateNetworksExceptions n = true →
      within [net6 [0x2001, 0xdb8] 32, net6 [0x2002] 16] n = false :=
    not_within_of_within (by decide)
  rw [isPrivate_v6 hmapped]
  simp only [within, List.any_cons, List.any_nil, V6.privateNetworks, disputed6] at hothers hexception ⊢
  grind

/-- No network but those that are private has a property of its own inside `2000::/3`. -/
theorem special_inside (n : Fin (2 ^ 128)) (h : unicastNetwork.holds n = true) :
    within V6.reservedNetworks n = false ∧ V6.multicastNetwork.holds n = false ∧
      V6.linklocalNetwork.holds n = false ∧ V6.sitelocalNetwork.holds n = false ∧
      mappedNetwork.holds n = false ∧ within nat64Networks n = false ∧
      n.val ≠ 0 ∧ n.val ≠ 1 := by
  refine ⟨not_within_of_apart (by decide) h, IpNetwork.not_holds_of_apart (by decide) h,
    IpNetwork.not_holds_of_apart (by decide) h, IpNetwork.not_holds_of_apart (by decide) h,
    IpNetwork.not_holds_of_apart (by decide) h, not_within_of_apart (by decide) h, ?_, ?_⟩
  · intro hn
    rw [hn] at h
    exact absurd h (by decide)
  · intro hn
    rw [hn] at h
    exact absurd h (by decide)

/-- Inside `2000::/3` the extra questions of `_is_public_address` change nothing. -/
theorem isPublicAddress_inside (n : Fin (2 ^ 128)) (h : unicastNetwork.holds n = true) :
    isPublicAddress (classify (.v6 n)) = isPublicTarget (classify (.v6 n)) := by
  obtain ⟨hreserved, hmulticast, hlinklocal, hsitelocal, hmapped, hnat64, hzero, hone⟩ :=
    special_inside n h
  have hteredo : (net6 [0x2001, 0] 32).holds n = true → disputed6 n = true := by
    intro hn
    have hwide : (net6 [0x2001] 23).holds n = true := IpNetwork.holds_of_within (by decide) hn
    rw [disputed6, hwide, not_within_of_apart (by decide) hn]
    rfl
  have hsixtofour : (net6 [0x2002] 16).holds n = true → disputed6 n = true := by
    intro hn
    rw [disputed6, hn, Bool.or_true]
  simp only [isPublicAddress, isPublicTarget, classify, isSome_ipv4Mapped, isSome_sixtofour,
    isSome_teredo, V6.isGlobal, isPrivate_inside n h, hreserved, hmulticast, hlinklocal, hsitelocal,
    hmapped, hnat64, hzero, hone, decide_false]
  grind

theorem refused_inside (n : Fin (2 ^ 128)) (h : unicastNetwork.holds n = true) :
    (hostInet (.v6 n)).refused = (net6 [0x2001, 0xdb8] 32).holds n := by
  have hothers : within [net6 [0xfc00, 0] 7, net6 [0xfe80, 0] 10, net6 [0xff00, 0] 8] n = false :=
    not_within_of_apart (by decide) h
  rw [refused_v6, h]
  simp only [within, List.any_cons, List.any_nil] at hothers ⊢
  rw [hothers]
  simp

theorem target_inside_iff (n : Fin (2 ^ 128)) (h : unicastNetwork.holds n = true) :
    (isPublicTarget (classify (.v6 n)) = true ↔ (hostInet (.v6 n)).refused = false) ↔
      disputed6 n = false := by
  obtain ⟨-, hmulticast, -, -, -, -, hzero, -⟩ := special_inside n h
  have hapart : (net6 [0x2001, 0xdb8] 32).holds n = true → disputed6 n = false := by
    intro hn
    have hboth : within [net6 [0x2001] 23, net6 [0x2002] 16] n = false :=
      not_within_of_apart (by decide) hn
    simp only [within, List.any_cons, List.any_nil] at hboth
    rw [disputed6]
    grind
  rw [refused_inside n h]
  simp only [isPublicTarget, classify, V6.isGlobal, isPrivate_inside n h, hmulticast, hzero]
  grind

/-! ## What the functions answer -/

theorem text_classify (a : Address) : (classify a).text = a.text := by
  cases a with
  | v4 n => rfl
  | v6 n => rfl

theorem ipAddress_text (a : Address) : ipAddress a.text = some (classify a) := by
  rw [ipAddress, Normalize.ipAddress_text, Option.map_some]
  cases a with
  | v4 n => rfl
  | v6 n => rfl

theorem isPublicTarget_scoped (a : ScopedAddress) :
    isPublicTarget (classifyScoped a) = isPublicTarget (classify a.address) := rfl

/-- The condition the source writes three times. -/
theorem not_isPublicTarget (address : IpAddress) :
    (!address.isGlobal || address.isMulticast || address.isUnspecified) = !isPublicTarget address := by
  simp [isPublicTarget, Bool.not_and]

theorem agentAccepts_iff (a : Address) : AgentAccepts a ↔ isPublicTarget (classify a) = true := by
  unfold AgentAccepts validateAddresses validateAddresses.go
  simp only [ipAddress_text, not_isPublicTarget, text_classify]
  cases isPublicTarget (classify a) with
  | true => simp [validateAddresses.go, bind, Except.bind, pure, Except.pure]
  | false => simp [bind, Except.bind]

theorem trim_space {s : Text} (h : ∀ c ∈ s, Corpus.isSpace c = false) :
    Corpus.trim (' ' :: s) = s := by
  have hkeep : ∀ t : Text, (∀ c ∈ t, Corpus.isSpace c = false) → t.dropWhile Corpus.isSpace = t := by
    intro t ht
    cases t with
    | nil => rfl
    | cons c t => rw [List.dropWhile_cons_of_neg (by simp [ht c List.mem_cons_self])]
  rw [Corpus.trim, List.dropWhile_cons_of_pos (by decide), hkeep s h, hkeep s.reverse ?_,
    List.reverse_reverse]
  intro c hc
  exact h c (List.mem_reverse.mp hc)

/-- The scope id of an address, where it has one, is the name or the number of an interface. -/
def OfInterface (a : ScopedAddress) : Prop :=
  ∀ scope, a.scopeId = some scope → ∀ c ∈ scope, 33 ≤ c.toNat ∧ c.toNat ≤ 126

theorem toNat_of_mem_compressed {a : ScopedAddress} (ha : OfInterface a) {c : Char}
    (hc : c ∈ a.compressed) : 33 ≤ c.toNat ∧ c.toNat ≤ 126 := by
  have htext : c ∈ a.address.text → 33 ≤ c.toNat ∧ c.toNat ≤ 126 := by
    intro hc
    have hbounds := toNat_of_mem_text hc
    omega
  unfold ScopedAddress.compressed at hc
  split at hc
  · rename_i scope hscope
    rcases List.mem_append.mp hc with hc | hc
    · exact htext hc
    · rcases List.mem_cons.mp hc with rfl | hc
      · decide
      · exact ha scope hscope c hc
  · exact htext hc

section Attestation

variable {a : ScopedAddress}

theorem toNat_of_mem_attestation (ha : OfInterface a) {c : Char}
    (hc : c ∈ "HTTP/1.1 200 Connection Established\r\n".toList ++
      "X-CrawlTrove-Connected-IP: ".toList ++ a.compressed ++ "\r\n\r\n".toList) :
    c.toNat < 128 := by
  have hliteral : ("HTTP/1.1 200 Connection Established\r\n".toList ++
      "X-CrawlTrove-Connected-IP: ".toList ++ "\r\n\r\n".toList).all
      (fun c => decide (c.toNat < 128)) = true := by decide
  simp only [List.all_append, Bool.and_eq_true, List.all_eq_true, decide_eq_true_eq] at hliteral
  simp only [List.mem_append] at hc
  rcases hc with ((hc | hc) | hc) | hc
  · exact hliteral.1.1 c hc
  · exact hliteral.1.2 c hc
  · have hbounds := toNat_of_mem_compressed ha hc
    omega
  · exact hliteral.2 c hc

/-- The lines of the agent's answer. -/
theorem splitCrlf_attestation (ha : OfInterface a) :
    splitCrlf ("HTTP/1.1 200 Connection Established\r\n".toList ++
      "X-CrawlTrove-Connected-IP: ".toList ++ a.compressed ++ "\r\n\r\n".toList) =
      ["HTTP/1.1 200 Connection Established".toList,
        "X-CrawlTrove-Connected-IP: ".toList ++ a.compressed, [], []] := by
  have hline : '\r' ∉ "X-CrawlTrove-Connected-IP: ".toList ++ a.compressed := by
    intro hmem
    rcases List.mem_append.mp hmem with hmem | hmem
    · exact absurd hmem (by decide)
    · have hbounds := toNat_of_mem_compressed ha hmem
      exact absurd hbounds.1 (by decide)
  have hshape : "HTTP/1.1 200 Connection Established\r\n".toList ++
      "X-CrawlTrove-Connected-IP: ".toList ++ a.compressed ++ "\r\n\r\n".toList =
      joinWith ['\r', '\n'] ["HTTP/1.1 200 Connection Established".toList,
        "X-CrawlTrove-Connected-IP: ".toList ++ a.compressed, [], []] := by
    simp [joinWith]
  rw [hshape]
  refine splitCrlf_joinWith (by simp) ?_
  intro part hpart
  simp only [List.mem_cons, List.not_mem_nil, or_false] at hpart
  rcases hpart with rfl | rfl | rfl | rfl
  · decide
  · exact hasCrlf_of_not_mem hline
  · rfl
  · rfl

theorem fieldValue_attestation (ha : OfInterface a) :
    fieldValue ("X-CrawlTrove-Connected-IP: ".toList ++ a.compressed) = a.compressed := by
  have hspace : ∀ c ∈ a.compressed, Corpus.isSpace c = false := by
    intro c hc
    have hbounds := toNat_of_mem_compressed ha hc
    simp only [Corpus.isSpace]
    grind
  have hpartition : (partition ':' ("X-CrawlTrove-Connected-IP: ".toList ++ a.compressed)).2.2 =
      ' ' :: a.compressed := by
    simp [partition]
  rw [fieldValue, hpartition, trim_space hspace]

/-- One line has the field of the connected address, whatever the address. -/
theorem filter_attestation (text : Text) :
    (["X-CrawlTrove-Connected-IP: ".toList ++ text, [], []] : List Text).filter
      (fun line => connectedIpHeader.isPrefixOf (line.map Char.toLower)) =
      ["X-CrawlTrove-Connected-IP: ".toList ++ text] := by
  have hlower : "X-CrawlTrove-Connected-IP: ".toList.map Char.toLower =
      connectedIpHeader ++ [' '] := by
    decide
  have hstarts : connectedIpHeader.isPrefixOf
      (("X-CrawlTrove-Connected-IP: ".toList ++ text).map Char.toLower) = true := by
    rw [List.map_append, hlower, List.append_assoc, List.isPrefixOf_iff_prefix]
    exact List.prefix_append _ _
  have hempty : connectedIpHeader.isPrefixOf (([] : Text).map Char.toLower) = false := by
    decide
  simp only [List.filter_cons, List.filter_nil, hstarts, hempty, if_true, Bool.false_eq_true,
    if_false]

end Attestation

/-- The bridge reads the address the agent writes. -/
theorem connectedIp_scoped {raw : Text} {a : ScopedAddress}
    (hraw : Normalize.ipAddress raw = some a) (ha : OfInterface a) :
    connectedIp (attestation a.compressed) =
      if isPublicTarget (classify a.address) then .ok a.compressed
      else .error (.valueError "egress CONNECT attested a non-public IP") := by
  have hread : ipAddress a.compressed = some (classifyScoped a) := by
    rw [ipAddress, Normalize.ipAddress_compressed hraw, Option.map_some]
  rw [connectedIp, attestation, decodeAscii_encodeAscii fun c => toNat_of_mem_attestation ha]
  simp only [splitCrlf_attestation ha]
  rw [if_neg (by decide)]
  simp only [filter_attestation, List.map_cons, List.map_nil, fieldValue_attestation ha, hread,
    not_isPublicTarget, isPublicTarget_scoped]
  cases isPublicTarget (classify a.address) with
  | true => rfl
  | false => rfl

theorem connectedIp_attestation (a : Address) : connectedIp (attestation a.text) =
    if isPublicTarget (classify a) then .ok a.text
    else .error (.valueError "egress CONNECT attested a non-public IP") := by
  have htext : (ScopedAddress.mk a none).compressed = a.text := rfl
  have hread := connectedIp_scoped (Normalize.ipAddress_text a) (by rintro scope ⟨⟩)
  simpa only [htext] using hread

theorem bridgeAccepts_iff (a : Address) :
    BridgeAccepts a ↔ isPublicTarget (classify a) = true := by
  rw [BridgeAccepts, connectedIp_attestation]
  cases isPublicTarget (classify a) with
  | true => simp
  | false => simp

/-- A task that is leased to somebody is leased. -/
theorem taskLeased_any {p : Pool} {taskId token : Uuid} {owner : Option String}
    (h : p.taskLeased taskId token owner = true) : p.taskLeased taskId token none = true := by
  rw [Pool.taskLeased, Table.any_eq_true] at h ⊢
  obtain ⟨t, ht, htask⟩ := h
  refine ⟨t, ht, ?_⟩
  simp only [Bool.and_eq_true] at htask ⊢
  exact ⟨htask.1, rfl⟩

theorem LiveLease.connected_eq (lease : LiveLease) (a : Address) :
    lease.connected a = some (isPublicTarget (classify a)) := by
  have hfenced : Proxies.fenced lease.txn.now (some lease.fence) lease.nodeId lease.pool = true := by
    rw [Proxies.fenced, Option.all_some, lease.leased, taskLeased_any lease.held]
    rfl
  have hread : (addressTables lease.tables).ipAddress (String.ofList a.text).toList =
      some (classify a) := by
    rw [String.toList_ofList]
    exact ipAddress_text a
  have hknown : lease.pool.nodes.any (fun n => decide (n.id = lease.nodeId) && true) = true := by
    simpa using lease.known
  unfold LiveLease.connected Proxies.recordConnectedIp returned
  simp only [hread, not_isPublicTarget]
  cases isPublicTarget (classify a) with
  | false => rfl
  | true =>
      simp only [Bool.not_true, Bool.false_eq_true, if_false, bind, StateT.bind, Transaction.read,
        Transaction.exec, Except.bind, hfenced, hknown]
      rfl

theorem LiveLease.proxied_eq (lease : LiveLease) (a : Address) :
    lease.proxied a = some (!(hostInet a).refused) := by
  have hinet : (addressTables lease.tables).inet a.text = hostInet a := by
    simp [addressTables, parse_text]
  have hknown : lease.pool.nodes.any (fun n => decide (n.id = lease.nodeId) && true) = true := by
    simpa using lease.known
  have hworker : Proxies.onStore (CrawlTrove.WorkerApi.identity lease.role false) lease.pool =
      .ok (lease.worker, lease.pool) := by
    rw [Proxies.onStore, lease.identified]
  unfold LiveLease.proxied Proxies.WorkerApi.recordProxyIp returned
  simp only [bind, StateT.bind, Except.bind, hworker, hinet]
  cases (hostInet a).refused with
  | true => rfl
  | false =>
      simp only [Bool.false_eq_true, if_false, StateT.bind, bind, Transaction.read,
        Transaction.exec, Except.bind, lease.leased, lease.held, Bool.and_self, hknown]
      rfl

/-! ## When the gates agree -/

/-- The gates agree on the address: an IPv4 address outside the disputed networks, an
address in `2000::/3` that is neither there nor of the form 6to4, or an address elsewhere
that the agent refuses as well, because it is private, multicast, or maps a private one. -/
def Undisputed : Address → Prop
  | .v4 n => within disputed4 n = false
  | .v6 n =>
      if unicastNetwork.holds n then disputed6 n = false
      else (mappedNetwork.holds n = true ∧ V4.isPrivate (n.val % 2 ^ 32) = true) ∨
        within closed6 n = true

/-- The form of a transition address is not public for `_is_public_address`. -/
theorem isPublicAddress_embedded (n : Fin (2 ^ 128)) (h : embedded n ≠ []) :
    isPublicAddress (classify (.v6 n)) = false := by
  have hform : (V6.ipv4Mapped n.val).isSome = true ∨ (V6.sixtofour n.val).isSome = true ∨
      (V6.teredo n.val).isSome = true ∨ within nat64Networks n.val = true := by
    by_contra hnone
    simp only [not_or, Bool.not_eq_true, Option.isSome_eq_false_iff, Option.isNone_iff_eq_none,
      nat64Networks, within, List.any_cons, List.any_nil, Bool.or_false, Bool.or_eq_false_iff] at hnone
    obtain ⟨hmapped, hsixtofour, hteredo, hnat64, hnat64'⟩ := hnone
    apply h
    simp [embedded, hmapped, hsixtofour, hteredo, hnat64, hnat64']
  simp only [isPublicAddress, classify]
  grind

theorem agree_iff (lease : LiveLease) (a : Address) :
    lease.Agree a ↔ (isPublicTarget (classify a) = isPublicAddress (classify a) ∧
      (isPublicTarget (classify a) = true ↔ (hostInet a).refused = false)) := by
  have hpool : lease.PoolAccepts a ↔ isPublicTarget (classify a) = true := by
    rw [LiveLease.PoolAccepts, lease.connected_eq, Option.some_inj]
  have hprotocol : lease.ProtocolAccepts a ↔ (hostInet a).refused = false := by
    rw [LiveLease.ProtocolAccepts, lease.proxied_eq, Option.some_inj, Bool.not_eq_true']
  constructor
  · intro h
    have hurl := h.url
    have hproxied := h.protocol
    rw [agentAccepts_iff] at hurl hproxied
    exact ⟨Bool.eq_iff_iff.mpr hurl, hproxied.trans hprotocol⟩
  · rintro ⟨hurl, hproxied⟩
    have hurl' : AgentAccepts a ↔ UrlAccepts a := by
      rw [agentAccepts_iff, hurl, UrlAccepts]
    refine ⟨hurl', ?_, ?_, ?_, ?_⟩
    · rw [agentAccepts_iff, bridgeAccepts_iff]
    · rw [agentAccepts_iff, hpool]
    · rw [agentAccepts_iff, hproxied, hprotocol]
    · intro hembeds
      have hnot : ¬ UrlAccepts a := by
        cases a with
        | v4 n => exact hembeds.elim
        | v6 n =>
            obtain ⟨m, hmem, -⟩ := hembeds
            rw [UrlAccepts, isPublicAddress_embedded n (List.ne_nil_of_mem hmem)]
            exact Bool.false_ne_true
      have htarget : ¬ isPublicTarget (classify a) = true := by
        rw [hurl]
        exact hnot
      refine ⟨?_, hnot, ?_, ?_, ?_⟩
      · rwa [agentAccepts_iff]
      · rwa [bridgeAccepts_iff]
      · rwa [hpool]
      · rwa [hprotocol, ← hproxied]

/-- The five gates agree on exactly the undisputed addresses. -/
theorem gates_agree_iff (lease : LiveLease) (a : Address) : lease.Agree a ↔ Undisputed a := by
  rw [agree_iff]
  cases a with
  | v4 n =>
      rw [isPublicAddress_v4, target_v4_iff]
      simp [Undisputed]
  | v6 n =>
      cases hunicast : unicastNetwork.holds n with
      | true =>
          rw [isPublicAddress_inside n hunicast, target_inside_iff n hunicast]
          simp [Undisputed, hunicast]
      | false =>
          have hrefused : (hostInet (.v6 n)).refused = true := by
            rw [refused_v6, hunicast, Bool.not_false, Bool.or_true]
          have htarget := isPublicTarget_outside n hunicast
          rw [isPublicAddress_outside n hunicast, hrefused]
          simp only [Undisputed, hunicast, Bool.false_eq_true, if_false]
          rw [← htarget]
          simp

namespace Sample

/-- The remote worker holds a task and was given a node for it. -/
def assigned : List Proxies.PoolRequest :=
  [Proxies.Sample.crawl Proxies.Sample.enrol, Proxies.Sample.crawl CrawlTrove.Sample.submit,
    Proxies.Sample.register 0 "node-a" "a.example:9443",
    Proxies.Sample.crawl CrawlTrove.Sample.remoteClaim, Proxies.Sample.assign 2]

def pool : Pool := Proxies.run Proxies.Sample.asciiTables CrawlTrove.Sample.identity {} assigned

def edge : Worker :=
  { id := "edge", dbRole := "worker_edge", capabilities := ["http", "proxy"]
    protocolVersion := 1, state := .active, artifactBucket := "crawl"
    artifactPrefix := "workers/edge/" }

theorem identity_edge :
    CrawlTrove.WorkerApi.identity "worker_edge" false pool.store = .ok (edge, pool.store) := by
  have hfind : pool.store.workers.find? (fun w => w.dbRole = "worker_edge" &&
      w.protocolVersion = 1 && (w.state = .active || (false && w.state = .draining))) =
      some edge := by decide
  unfold CrawlTrove.WorkerApi.identity
  simp only [bind, StateT.bind, Transaction.read, Except.bind, hfind]
  rfl

def lease : LiveLease where
  tables := Proxies.Sample.asciiTables
  txn := { now := seconds 3 }
  role := "worker_edge"
  worker := edge
  fence := ⟨2, 11⟩
  nodeId := "node-a"
  pool := pool
  identified := identity_edge
  leased := by decide
  held := by decide
  known := by decide

/-- `192.88.99.1` is public for the agent and refused by the protocol, `2002:a00:1::`,
which embeds `10.0.0.1`, is refused by the agent and accepted by the protocol, and
`64:ff9b::a00:1` is public for the agent alone. -/
theorem gates_disagree :
    (AgentAccepts (.v4 3227017985) ∧ ¬ lease.ProtocolAccepts (.v4 3227017985)) ∧
      (¬ AgentAccepts (.v6 (0x20020a000001 * 2 ^ 80)) ∧
        lease.ProtocolAccepts (.v6 (0x20020a000001 * 2 ^ 80))) ∧
      AgentAccepts (.v6 (0x64ff9b * 2 ^ 96 + 0x0a000001)) ∧
      ¬ UrlAccepts (.v6 (0x64ff9b * 2 ^ 96 + 0x0a000001)) ∧
      EmbedsNonPublic (.v6 (0x64ff9b * 2 ^ 96 + 0x0a000001)) ∧
      ¬ ∀ a, lease.Agree a := by
  have hagent : AgentAccepts (.v4 3227017985) := (agentAccepts_iff _).mpr (by decide)
  have hprotocol : ¬ lease.ProtocolAccepts (.v4 3227017985) := by
    rw [LiveLease.ProtocolAccepts, lease.proxied_eq]
    decide +kernel
  refine ⟨⟨hagent, hprotocol⟩, ⟨?_, ?_⟩, ?_, ?_, ?_, ?_⟩
  · rw [agentAccepts_iff]
    decide +kernel
  · rw [LiveLease.ProtocolAccepts, lease.proxied_eq]
    decide +kernel
  · rw [agentAccepts_iff]
    decide +kernel
  · rw [UrlAccepts]
    decide +kernel
  · refine ⟨0x0a000001, by decide +kernel, ?_⟩
    intro m hm
    obtain rfl : m = 0x0a000001 := Fin.ext hm
    rw [UrlAccepts]
    decide +kernel
  · intro h
    exact hprotocol ((h (.v4 3227017985)).protocol.mp hagent)

example : validateAddresses ["93.184.216.34".toList, "10.0.0.1".toList] =
    .error "CONNECT target must resolve only to public addresses" := by
  decide +kernel

end Sample

end CrawlTrove.Egress
