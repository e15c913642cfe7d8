import Mathlib

/-!
# Base64

The encoder, in the standard and in the URL-safe alphabet, and the strict decoder of
`binascii.a2b_base64`: a machine that holds the bits of a byte it has not completed.
`decode_encode` says that what was encoded is read back. The converse fails: the last
bits of a group that is not full are read and dropped.
-/

namespace CrawlTrove.Base64

abbrev Byte := Fin 256

abbrev Sextet := Fin 64

def alphabet : List Char :=
  "ABCDEFGHIJKLMNOPQRSTUVWXYZabcdefghijklmnopqrstuvwxyz0123456789+/".toList

/-- The character of six bits. -/
def char (v : Sextet) : Char := alphabet.getD v 'A'

def value (c : Char) : Option Sextet := (List.finRange 64).find? fun v => char v = c

/-! ## Encoding -/

def sextet₁ (a : Byte) : Sextet := ⟨a.val / 4, by omega⟩

def sextet₂ (a b : Byte) : Sextet := ⟨a.val % 4 * 16 + b.val / 16, by omega⟩

def sextet₃ (b c : Byte) : Sextet := ⟨b.val % 16 * 4 + c.val / 64, by omega⟩

def sextet₄ (c : Byte) : Sextet := ⟨c.val % 64, by omega⟩

/-- The characters of the bytes, without padding. -/
def digits : List Byte → List Char
  | [] => []
  | [a] => [char (sextet₁ a), char (sextet₂ a 0)]
  | [a, b] => [char (sextet₁ a), char (sextet₂ a b), char (sextet₃ b 0)]
  | a :: b :: c :: bytes =>
      char (sextet₁ a) :: char (sextet₂ a b) :: char (sextet₃ b c) :: char (sextet₄ c) ::
        digits bytes

/-- Fill the last group of four characters. -/
def pad (s : List Char) : List Char := s ++ List.replicate ((4 - s.length % 4) % 4) '='

def encode (bytes : List Byte) : List Char := pad (digits bytes)

/-! ## Decoding -/

/-- The place in a group of four characters, with the bits left over. -/
inductive Quad
  | zero
  | one (left : Sextet)
  | two (left : Fin 16)
  | three (left : Fin 4)
deriving DecidableEq

def Quad.pos : Quad → ℕ
  | .zero => 0
  | .one _ => 1
  | .two _ => 2
  | .three _ => 3

/-- Six more bits: the byte they complete, and what is left over. -/
def Quad.push (v : Sextet) : Quad → List Byte × Quad
  | .zero => ([], .one v)
  | .one left => ([⟨left.val * 4 + v.val / 16, by omega⟩], .two ⟨v.val % 16, by omega⟩)
  | .two left => ([⟨left.val * 16 + v.val / 4, by omega⟩], .three ⟨v.val % 4, by omega⟩)
  | .three left => ([⟨left.val * 64 + v.val, by omega⟩], .zero)

/-- The loop of `a2b_base64`; `pads` counts the padding of the group and `padded` says
that padding has started. -/
def decodeFrom (quad : Quad) (pads : ℕ) (padded : Bool) : List Char → Option (List Byte)
  | [] => if quad = .zero then some [] else none
  | c :: s =>
      if c = '=' then
        if 2 ≤ quad.pos then
          if 4 ≤ quad.pos + (pads + 1) then if s = [] then some [] else none
          else decodeFrom quad (pads + 1) true s
        else decodeFrom quad pads true s
      else
        match value c with
        | none => none
        | some v =>
            if padded then none
            else (decodeFrom (quad.push v).2 0 false s).map ((quad.push v).1 ++ ·)

/-- `binascii.a2b_base64(s, strict_mode=True)`. -/
def decode (s : List Char) : Option (List Byte) :=
  if s.head? = some '=' then none else decodeFrom .zero 0 false s

/-! ## The URL-safe alphabet -/

/-- `+/` written as `-_`. -/
def urlsafe (c : Char) : Char := if c = '+' then '-' else if c = '/' then '_' else c

/-- `-_` read as `+/`; `+/` stay. -/
def altchar (c : Char) : Char := if c = '-' then '+' else if c = '_' then '/' else c

/-- `base64.urlsafe_b64encode`. -/
def urlsafeEncode (bytes : List Byte) : List Char := (encode bytes).map urlsafe

/-- `base64.b64decode(s, altchars=b"-_", validate=True)`. -/
def altDecode (s : List Char) : Option (List Byte) := decode (s.map altchar)

/-! ## The characters of an encoding -/

theorem value_char : ∀ v : Sextet, value (char v) = some v := by decide +kernel

theorem char_ne_pad : ∀ v : Sextet, char v ≠ '=' := by decide +kernel

theorem urlsafe_char_ne_pad : ∀ v : Sextet, urlsafe (char v) ≠ '=' := by decide +kernel

theorem altchar_urlsafe_char : ∀ v : Sextet, altchar (urlsafe (char v)) = char v := by
  decide +kernel

/-- Every character of the digits is that of some bits. -/
theorem exists_char_of_mem_digits {c : Char} (bytes : List Byte) (h : c ∈ digits bytes) :
    ∃ v, c = char v := by
  induction bytes using digits.induct with
  | case1 => simp [digits] at h
  | case2 a =>
      simp only [digits, List.mem_cons, List.not_mem_nil, or_false] at h
      rcases h with rfl | rfl
      · exact ⟨_, rfl⟩
      · exact ⟨_, rfl⟩
  | case3 a b =>
      simp only [digits, List.mem_cons, List.not_mem_nil, or_false] at h
      rcases h with rfl | rfl | rfl
      · exact ⟨_, rfl⟩
      · exact ⟨_, rfl⟩
      · exact ⟨_, rfl⟩
  | case4 a b c bytes ih =>
      simp only [digits, List.mem_cons] at h
      rcases h with rfl | rfl | rfl | rfl | h
      · exact ⟨_, rfl⟩
      · exact ⟨_, rfl⟩
      · exact ⟨_, rfl⟩
      · exact ⟨_, rfl⟩
      · exact ih h

/-! ## Padding -/

/-- Padding looks at the length only. -/
theorem pad_map {f : Char → Char} (hpad : f '=' = '=') (s : List Char) :
    (pad s).map f = pad (s.map f) := by
  simp [pad, hpad]

/-- A full group in front does not change the padding. -/
theorem pad_group (c₁ c₂ c₃ c₄ : Char) (s : List Char) :
    pad (c₁ :: c₂ :: c₃ :: c₄ :: s) = c₁ :: c₂ :: c₃ :: c₄ :: pad s := by
  have hlength : (c₁ :: c₂ :: c₃ :: c₄ :: s).length % 4 = s.length % 4 := by
    simp only [List.length_cons]
    omega
  rw [pad, hlength]
  rfl

/-- `rstrip("=")` takes the padding away. -/
theorem strip_pad {s : List Char} (h : ∀ c ∈ s, c ≠ '=') : (pad s).rdropWhile (· = '=') = s := by
  unfold pad
  induction (4 - s.length % 4) % 4 with
  | zero =>
      rw [List.replicate_zero, List.append_nil, List.rdropWhile_eq_self_iff]
      intro hne
      simpa using h _ (List.getLast_mem hne)
  | succ n ih =>
      rw [List.replicate_succ', ← List.append_assoc, List.rdropWhile_concat_pos _ _ _ (by simp)]
      exact ih

/-! ## The round trip -/

/-- A character with bits is pushed. -/
theorem decodeFrom_char (quad : Quad) (pads : ℕ) (v : Sextet) (s : List Char) :
    decodeFrom quad pads false (char v :: s) =
      (decodeFrom (quad.push v).2 0 false s).map ((quad.push v).1 ++ ·) := by
  rw [decodeFrom, if_neg (char_ne_pad v), value_char]
  rfl

/-- Four characters are three bytes. -/
theorem decodeFrom_group (a b c : Byte) (s : List Char) :
    decodeFrom .zero 0 false (char (sextet₁ a) :: char (sextet₂ a b) :: char (sextet₃ b c) ::
        char (sextet₄ c) :: s) =
      (decodeFrom .zero 0 false s).map ([a, b, c] ++ ·) := by
  have ha : a.val / 4 * 4 + (a.val % 4 * 16 + b.val / 16) / 16 = a.val := by omega
  have hb :
      (a.val % 4 * 16 + b.val / 16) % 16 * 16 + (b.val % 16 * 4 + c.val / 64) / 4 = b.val := by
    omega
  have hc : (b.val % 16 * 4 + c.val / 64) % 4 * 64 + c.val % 64 = c.val := by omega
  simp only [decodeFrom_char, Quad.push, sextet₁, sextet₂, sextet₃, sextet₄, ha, hb, hc,
    Option.map_map]
  rfl

theorem decodeFrom_encode (bytes : List Byte) :
    decodeFrom .zero 0 false (encode bytes) = some bytes := by
  unfold encode
  induction bytes using digits.induct with
  | case1 => rfl
  | case2 a =>
      have ha : a.val / 4 * 4 + (a.val % 4 * 16 + (0 : Byte).val / 16) / 16 = a.val := by
        simp only [Fin.val_zero]
        omega
      show decodeFrom .zero 0 false (char _ :: char _ :: ['=', '=']) = _
      simp only [decodeFrom_char, Quad.push, sextet₁, sextet₂, ha]
      rfl
  | case3 a b =>
      have ha : a.val / 4 * 4 + (a.val % 4 * 16 + b.val / 16) / 16 = a.val := by omega
      have hb :
          (a.val % 4 * 16 + b.val / 16) % 16 * 16 + (b.val % 16 * 4 + (0 : Byte).val / 64) / 4 =
          b.val := by
        simp only [Fin.val_zero]
        omega
      show decodeFrom .zero 0 false (char _ :: char _ :: char _ :: ['=']) = _
      simp only [decodeFrom_char, Quad.push, sextet₁, sextet₂, sextet₃, ha, hb]
      rfl
  | case4 a b c bytes ih =>
      rw [digits, pad_group, decodeFrom_group, ih]
      rfl

/-- An encoding does not begin with padding. -/
theorem head?_encode (bytes : List Byte) : (encode bytes).head? ≠ some '=' := by
  unfold encode
  cases bytes using digits.fun_cases with
  | case1 => simp [digits, pad]
  | case2 a => simp [digits, pad, char_ne_pad]
  | case3 a b => simp [digits, pad, char_ne_pad]
  | case4 a b c bytes => simp [digits, pad, char_ne_pad]

/-- What was encoded is read back. -/
theorem decode_encode (bytes : List Byte) : decode (encode bytes) = some bytes := by
  rw [decode, if_neg (head?_encode bytes), decodeFrom_encode]

theorem map_altchar_digits (bytes : List Byte) :
    ((digits bytes).map urlsafe).map altchar = digits bytes := by
  rw [List.map_map]
  conv_rhs => rw [← List.map_id (digits bytes)]
  refine List.map_congr_left fun c hc => ?_
  obtain ⟨v, rfl⟩ := exists_char_of_mem_digits bytes hc
  exact altchar_urlsafe_char v

/-- The digits in the URL-safe alphabet, padded, are read back. -/
theorem altDecode_pad_digits (bytes : List Byte) :
    altDecode (pad ((digits bytes).map urlsafe)) = some bytes := by
  rw [altDecode, pad_map (by decide), map_altchar_digits]
  exact decode_encode bytes

/-- The URL-safe encoding without its padding. -/
theorem strip_urlsafeEncode (bytes : List Byte) :
    (urlsafeEncode bytes).rdropWhile (· = '=') = (digits bytes).map urlsafe := by
  rw [urlsafeEncode, encode, pad_map (by decide)]
  refine strip_pad fun c hc => ?_
  obtain ⟨d, hd, rfl⟩ := List.mem_map.mp hc
  obtain ⟨v, rfl⟩ := exists_char_of_mem_digits bytes hd
  exact urlsafe_char_ne_pad v

end CrawlTrove.Base64
