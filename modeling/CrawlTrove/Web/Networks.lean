import CrawlTrove.Web.Inet

/-!
# Networks and what `ipaddress` says of an address

A network is a prefix; two of them are nested or disjoint, which their prefixes decide
(`IpNetwork.holds_of_within`, `IpNetwork.not_holds_of_apart`). The lists of special networks
and the properties that are read off them are those of the `ipaddress` module of Python
3.11: `is_global` of an address that maps an IPv4 address is the opposite of its
`is_private`, so the shared address space counts as global there.
-/

namespace CrawlTrove.Inet

/-- The addresses that differ from `first` in the last `free` bits only. -/
structure IpNetwork where
  first : ℕ
  free : ℕ
deriving DecidableEq

def IpNetwork.holds (net : IpNetwork) (n : ℕ) : Bool :=
  n / 2 ^ net.free = net.first / 2 ^ net.free

/-- The address lies in one of the networks. -/
def within (nets : List IpNetwork) (n : ℕ) : Bool := nets.any (·.holds n)

/-- `a.b.c.d/length`. -/
def net4 (a b c d length : ℕ) : IpNetwork :=
  ⟨fold 256 [a, b, c, d], 32 - length⟩

/-- The network of this length that begins with these groups. -/
def net6 (groups : List ℕ) (length : ℕ) : IpNetwork :=
  ⟨fold 65536 groups * 2 ^ (128 - 16 * groups.length), 128 - length⟩

/-! ## Nested and disjoint networks -/

/-- The prefix of `outer` is a prefix of that of `inner`. -/
def IpNetwork.Within (inner outer : IpNetwork) : Prop :=
  inner.free ≤ outer.free ∧ inner.first / 2 ^ outer.free = outer.first / 2 ^ outer.free

instance (inner outer : IpNetwork) : Decidable (inner.Within outer) :=
  inferInstanceAs (Decidable (_ ∧ _))

/-- The prefixes differ where both have bits. -/
def IpNetwork.Apart (net net' : IpNetwork) : Prop :=
  net.first / 2 ^ max net.free net'.free ≠ net'.first / 2 ^ max net.free net'.free

instance (net net' : IpNetwork) : Decidable (net.Apart net') :=
  inferInstanceAs (Decidable (¬ _))

theorem div_two_pow_eq {n m e e' : ℕ} (he : e ≤ e') (h : n / 2 ^ e = m / 2 ^ e) :
    n / 2 ^ e' = m / 2 ^ e' := by
  obtain ⟨k, rfl⟩ := Nat.exists_eq_add_of_le he
  rw [Nat.pow_add, ← Nat.div_div_eq_div_mul, ← Nat.div_div_eq_div_mul, h]

theorem IpNetwork.holds_iff {net : IpNetwork} {n : ℕ} :
    net.holds n = true ↔ n / 2 ^ net.free = net.first / 2 ^ net.free := by
  simp [IpNetwork.holds]

theorem IpNetwork.holds_of_within {inner outer : IpNetwork} (h : inner.Within outer) {n : ℕ}
    (hn : inner.holds n = true) : outer.holds n = true := by
  rw [IpNetwork.holds_iff] at hn ⊢
  rw [← h.2]
  exact div_two_pow_eq h.1 hn

theorem IpNetwork.not_holds_of_apart {net net' : IpNetwork} (h : net.Apart net') {n : ℕ}
    (hn : net.holds n = true) : net'.holds n = false := by
  rw [← Bool.not_eq_true]
  intro hn'
  rw [IpNetwork.holds_iff] at hn hn'
  apply h
  rw [← div_two_pow_eq (Nat.le_max_left _ _) hn]
  exact div_two_pow_eq (Nat.le_max_right _ _) hn'

theorem within_of_mem {nets : List IpNetwork} {net : IpNetwork} (hmem : net ∈ nets) {n : ℕ}
    (h : net.holds n = true) : within nets n = true :=
  List.any_eq_true.mpr ⟨net, hmem, h⟩

/-- All networks of one list lie inside networks of another. -/
theorem within_of_within {inner outer : List IpNetwork}
    (h : ∀ net ∈ inner, ∃ net' ∈ outer, net.Within net') {n : ℕ} (hn : within inner n = true) :
    within outer n = true := by
  obtain ⟨net, hmem, hn⟩ := List.any_eq_true.mp hn
  obtain ⟨net', hmem', hwithin⟩ := h net hmem
  exact within_of_mem hmem' (IpNetwork.holds_of_within hwithin hn)

theorem not_within_of_apart {nets : List IpNetwork} {net : IpNetwork} {n : ℕ}
    (h : ∀ net' ∈ nets, net.Apart net') (hn : net.holds n = true) : within nets n = false := by
  refine List.any_eq_false.mpr ?_
  intro net' hmem
  rw [IpNetwork.not_holds_of_apart (h net' hmem) hn]
  exact Bool.false_ne_true

/-- No network of one list meets one of another. -/
theorem not_within_of_within {nets nets' : List IpNetwork}
    (h : ∀ net ∈ nets, ∀ net' ∈ nets', net.Apart net') {n : ℕ} (hn : within nets n = true) :
    within nets' n = false := by
  obtain ⟨net, hmem, hn⟩ := List.any_eq_true.mp hn
  exact not_within_of_apart (h net hmem) hn

@[simp] theorem within_singleton (net : IpNetwork) (n : ℕ) : within [net] n = net.holds n := by
  simp [within]

/-- Of a network with at least `e` free bits, the others say whether it holds an address. -/
theorem IpNetwork.holds_coarse {net : IpNetwork} {e : ℕ} (he : e ≤ net.free) (n : ℕ) :
    net.holds n = decide (n / 2 ^ e / 2 ^ (net.free - e) = net.first / 2 ^ net.free) := by
  rw [IpNetwork.holds, Nat.div_div_eq_div_mul, ← Nat.pow_add, Nat.add_sub_cancel' he]

/-! ## IPv4 -/

namespace V4

def linklocalNetwork : IpNetwork := net4 169 254 0 0 16

def loopbackNetwork : IpNetwork := net4 127 0 0 0 8

def multicastNetwork : IpNetwork := net4 224 0 0 0 4

/-- `_public_network`. -/
def publicNetwork : IpNetwork := net4 100 64 0 0 10

def privateNetworks : List IpNetwork :=
  [net4 0 0 0 0 8, net4 10 0 0 0 8, net4 127 0 0 0 8, net4 169 254 0 0 16, net4 172 16 0 0 12,
    net4 192 0 0 0 24, net4 192 0 0 170 31, net4 192 0 2 0 24, net4 192 168 0 0 16,
    net4 198 18 0 0 15, net4 198 51 100 0 24, net4 203 0 113 0 24, net4 240 0 0 0 4,
    net4 255 255 255 255 32]

def privateNetworksExceptions : List IpNetwork := [net4 192 0 0 9 32, net4 192 0 0 10 32]

def reservedNetwork : IpNetwork := net4 240 0 0 0 4

def isPrivate (n : ℕ) : Bool := within privateNetworks n && !within privateNetworksExceptions n

def isGlobal (n : ℕ) : Bool := !publicNetwork.holds n && !isPrivate n

end V4

/-! ## IPv6 -/

namespace V6

def linklocalNetwork : IpNetwork := net6 [0xfe80] 10

def multicastNetwork : IpNetwork := net6 [0xff00] 8

def sitelocalNetwork : IpNetwork := net6 [0xfec0] 10

def privateNetworks : List IpNetwork :=
  [net6 [0, 0, 0, 0, 0, 0, 0, 1] 128, net6 [0] 128, net6 [0, 0, 0, 0, 0, 0xffff] 96,
    net6 [0x64, 0xff9b, 1] 48, net6 [0x100] 64, net6 [0x2001] 23, net6 [0x2001, 0xdb8] 32,
    net6 [0x2002] 16, net6 [0xfc00] 7, net6 [0xfe80] 10]

def privateNetworksExceptions : List IpNetwork :=
  [net6 [0x2001, 1, 0, 0, 0, 0, 0, 1] 128, net6 [0x2001, 1, 0, 0, 0, 0, 0, 2] 128,
    net6 [0x2001, 3] 32, net6 [0x2001, 4, 0x112] 48, net6 [0x2001, 0x20] 28,
    net6 [0x2001, 0x30] 28]

def reservedNetworks : List IpNetwork :=
  [net6 [0] 8, net6 [0x100] 8, net6 [0x200] 7, net6 [0x400] 6, net6 [0x800] 5, net6 [0x1000] 4,
    net6 [0x4000] 3, net6 [0x6000] 3, net6 [0x8000] 3, net6 [0xa000] 3, net6 [0xc000] 3,
    net6 [0xe000] 4, net6 [0xf000] 5, net6 [0xf800] 6, net6 [0xfe00] 9]

/-- `ipv4_mapped`: the number of the IPv4 address. -/
def ipv4Mapped (n : ℕ) : Option ℕ := if n / 2 ^ 32 = 0xffff then some (n % 2 ^ 32) else none

/-- `sixtofour`. -/
def sixtofour (n : ℕ) : Option ℕ :=
  if n / 2 ^ 112 = 0x2002 then some (n / 2 ^ 80 % 2 ^ 32) else none

/-- `teredo`: the server and the client. -/
def teredo (n : ℕ) : Option (ℕ × ℕ) :=
  if n / 2 ^ 96 = 0x20010000 then some (n / 2 ^ 64 % 2 ^ 32, 2 ^ 32 - 1 - n % 2 ^ 32) else none

def isPrivate (n : ℕ) : Bool :=
  match ipv4Mapped n with
  | some m => V4.isPrivate m
  | none => within privateNetworks n && !within privateNetworksExceptions n

def isGlobal (n : ℕ) : Bool := !isPrivate n

end V6

end CrawlTrove.Inet
