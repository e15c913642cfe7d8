import CrawlTrove.Web.Inet
import CrawlTrove.Web.Written

/-!
# Addresses with scope ids

`ipaddress.ip_address` reads an IPv6 address with a scope id behind a `%`, which no
property but its text shows. What it has written it reads again.
-/

namespace CrawlTrove.Inet

open Web (split joinWith)

theorem exists_of_mapM {α β : Type} {f : α → Option β} {l : List α} {r : List β}
    (h : l.mapM f = some r) {a : α} (ha : a ∈ l) : ∃ b, f a = some b := by
  induction l generalizing r with
  | nil => cases ha
  | cons a' l ih =>
    rw [List.mapM_cons, Option.bind_eq_bind, Option.bind_eq_some_iff] at h
    obtain ⟨b, hb, h⟩ := h
    rw [Option.bind_eq_bind, Option.bind_eq_some_iff] at h
    obtain ⟨others, hothers, -⟩ := h
    obtain rfl | ha := List.mem_cons.mp ha
    · exact ⟨b, hb⟩
    · exact ih hothers ha

theorem mem_parts {c d : Char} {s : Text} (h : d ∈ s) : d = c ∨ ∃ part ∈ split c s, d ∈ part := by
  rw [← Web.joinWith_split c s] at h
  obtain h | h := mem_joinWith h
  · exact .inl (List.mem_singleton.mp h)
  · exact .inr h

/-- An IPv4 address is written in digits and full stops. -/
theorem mem_of_parse4 {s : Text} {n : Fin (2 ^ 32)} (h : parse4 s = some n) {c : Char}
    (hc : c ∈ s) : isDigit c = true ∨ c = '.' := by
  obtain ⟨octets, hoctets, -⟩ := Option.map_eq_some_iff.mp h
  unfold parseOctets at hoctets
  dsimp only at hoctets
  rw [Option.ite_none_right_eq_some] at hoctets
  obtain rfl | ⟨part, hpart, hmem⟩ := mem_parts (c := '.') hc
  · exact .inr rfl
  · obtain ⟨k, hk⟩ := exists_of_mapM hoctets.2 hpart
    simp only [parseOctet, Option.ite_none_left_eq_some, Bool.or_eq_true, not_or] at hk
    have hdigits : part.all isDigit = true := by simpa using hk.1.1.1.2
    exact .inl (List.all_eq_true.mp hdigits c hmem)

end CrawlTrove.Inet

namespace CrawlTrove.Normalize

open Web (Text partition)
open Inet (Address parse4 parse6)

/-- An `ipaddress` object; an IPv6 address may have a scope id. -/
structure ScopedAddress where
  address : Inet.Address
  scopeId : Option Text
deriving DecidableEq

/-- `compressed`. -/
def ScopedAddress.compressed (a : ScopedAddress) : Text :=
  match a.scopeId with
  | some scope => a.address.text ++ '%' :: scope
  | none => a.address.text

/-- `ipaddress.ip_address`. -/
def ipAddress (s : Text) : Option ScopedAddress :=
  match Inet.parse4 s with
  | some n => some ⟨.v4 n, none⟩
  | none =>
      let (address, found, scope) := partition '%' s
      if s.contains '/' || (found && (scope.isEmpty || scope.contains '%')) then none
      else (Inet.parse6 address).map fun n => ⟨.v6 n, if found then some scope else none⟩

/-- Without a scope id an address is read by its own form. -/
theorem ipAddress_plain {host : Text} (hpercent : '%' ∉ host) (hslash : '/' ∉ host) :
    ipAddress host =
      match parse4 host with
      | some n => some ⟨.v4 n, none⟩
      | none => (parse6 host).map fun n => ⟨.v6 n, none⟩ := by
  unfold ipAddress
  cases parse4 host with
  | some n => rfl
  | none =>
    dsimp only
    rw [Web.partition_of_not_mem hpercent]
    simp [hslash]

theorem not_mem_text (a : Address) : '%' ∉ a.text ∧ '/' ∉ a.text := by
  refine ⟨fun h => absurd (Inet.toNat_of_mem_text h).1 (by decide), ?_⟩
  cases a with
  | v4 n =>
      intro h
      obtain hdigit | hdot := Inet.mem_of_parse4 (Inet.parse4_text n) h
      · cases hdigit
      · cases hdot
  | v6 n =>
      intro h
      obtain hcolon | hgroup := Inet.isGroupChar_of_mem_text h
      · cases hcolon
      · cases hgroup

theorem ipAddress_text (a : Address) : ipAddress a.text = some ⟨a, none⟩ := by
  have hread := Inet.parse_text a
  rw [ipAddress_plain (not_mem_text a).1 (not_mem_text a).2]
  unfold Inet.parse at hread
  cases hparse : parse4 a.text with
  | some n =>
      rw [hparse] at hread
      obtain rfl := Option.some.inj hread
      rfl
  | none =>
      rw [hparse] at hread
      obtain ⟨n, hn, rfl⟩ := Option.map_eq_some_iff.mp hread
      rw [hn, Option.map_some]

/-- What is written with a scope id is read with it. -/
theorem ipAddress_scoped (n : Fin (2 ^ 128)) {scope : Text} (hne : scope ≠ [])
    (hpercent : '%' ∉ scope) (hslash : '/' ∉ scope) :
    ipAddress ((Address.v6 n).text ++ '%' :: scope) = some ⟨.v6 n, some scope⟩ := by
  obtain ⟨hpercent', hslash'⟩ := not_mem_text (.v6 n)
  have hparse4 : parse4 ((Address.v6 n).text ++ '%' :: scope) = none := by
    cases hparse : parse4 ((Address.v6 n).text ++ '%' :: scope) with
    | none => rfl
    | some m =>
        have hmem : '%' ∈ (Address.v6 n).text ++ '%' :: scope := by simp
        exact absurd (Inet.mem_of_parse4 hparse hmem) (by decide)
  have hparse6 : parse6 (Address.v6 n).text = some n := by
    have hread := Inet.parse_text (.v6 n)
    rw [Inet.parse, Inet.parse4_text6] at hread
    obtain ⟨m, hm, heq⟩ := Option.map_eq_some_iff.mp hread
    obtain rfl := Address.v6.inj heq
    exact hm
  unfold ipAddress
  rw [hparse4]
  dsimp only
  rw [Web.partition_append hpercent']
  have hscope : scope.isEmpty = false := by simpa using hne
  simp [hslash', hslash, hpercent, hscope, hparse6]

/-- An address that has been read is read again from its own text. -/
theorem ipAddress_compressed {s : Text} {a : ScopedAddress} (h : ipAddress s = some a) :
    ipAddress a.compressed = some a := by
  unfold ipAddress at h
  cases hparse : parse4 s with
  | some n =>
      rw [hparse] at h
      obtain rfl := Option.some.inj h
      exact ipAddress_text (.v4 n)
  | none =>
      rw [hparse] at h
      dsimp only at h
      rw [Option.ite_none_left_eq_some] at h
      obtain ⟨hbad, h⟩ := h
      obtain ⟨n, hn, rfl⟩ := Option.map_eq_some_iff.mp h
      simp only [Bool.or_eq_true, Bool.and_eq_true, not_or, not_and] at hbad
      obtain ⟨hslash, hscope⟩ := hbad
      cases hfound : (partition '%' s).2.1 with
      | true =>
          obtain ⟨hne, hpercent⟩ := hscope hfound
          refine ipAddress_scoped n (by simpa using hne) (by simpa using hpercent) ?_
          intro hmem
          exact hslash (by simpa using Web.mem_of_mem_partition (.inr hmem))
      | false => exact ipAddress_text (.v6 n)

end CrawlTrove.Normalize
