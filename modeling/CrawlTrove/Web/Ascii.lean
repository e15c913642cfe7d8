import CrawlTrove.Web.Splitting

/-!
# ASCII

Bytes as the `ascii` codec reads and writes them; what was written is read back.
-/

namespace CrawlTrove.Web

/-- `bytes.decode("ascii")`. -/
def decodeAscii (bytes : List UInt8) : Option (List Char) :=
  if bytes.all fun b => decide (b.toNat < 128) then some (bytes.map fun b => Char.ofNat b.toNat)
  else none

/-- `str.encode("ascii")`, for a text that is ASCII. -/
def encodeAscii (s : List Char) : List UInt8 := s.map fun c => UInt8.ofNat c.toNat

theorem toNat_ofNat {c : Char} (h : c.toNat < 128) : (UInt8.ofNat c.toNat).toNat = c.toNat := by
  rw [UInt8.toNat_ofNat']
  omega

theorem decodeAscii_encodeAscii {s : List Char} (h : ∀ c ∈ s, c.toNat < 128) :
    decodeAscii (encodeAscii s) = some s := by
  have hall : (encodeAscii s).all (fun b => decide (b.toNat < 128)) = true := by
    rw [encodeAscii, List.all_map]
    refine List.all_eq_true.mpr ?_
    intro c hc
    have hc := h c hc
    exact decide_eq_true (by rw [toNat_ofNat hc]; exact hc)
  rw [decodeAscii, if_pos hall, encodeAscii, List.map_map]
  refine congrArg some ((List.map_congr_left ?_).trans (List.map_id s))
  intro c hc
  show Char.ofNat (UInt8.ofNat c.toNat).toNat = c
  rw [toNat_ofNat (h c hc), Char.ofNat_toNat]

theorem isAscii_of_decodeAscii {bytes : List UInt8} {s : List Char} (h : decodeAscii bytes = some s) :
    ∀ c ∈ s, c.toNat < 128 := by
  unfold decodeAscii at h
  split at h
  · rename_i hall
    obtain rfl := Option.some.inj h
    intro c hc
    obtain ⟨b, hb, rfl⟩ := List.mem_map.mp hc
    have hlt : b.toNat < 128 := of_decide_eq_true (List.all_eq_true.mp hall b hb)
    rw [Char.toNat_ofNat, if_pos (Or.inl (by omega))]
    exact hlt
  · cases h

theorem encodeAscii_append (s s' : List Char) :
    encodeAscii (s ++ s') = encodeAscii s ++ encodeAscii s' := List.map_append

end CrawlTrove.Web
