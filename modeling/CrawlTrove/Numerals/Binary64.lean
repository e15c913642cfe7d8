import Mathlib

/-!
# Decimal numerals read as binary64

A decimal column keeps the digits of a numeral and how many of them stand
after the point. A reader of its text takes a numeral without a point as an
integer and any other as the nearest binary64 number, and writes that number
with the fewest digits that read back as it. The numerals that this leaves
alone survive; rereading always ends in one of them.
-/

namespace CrawlTrove.Numerals

/-- A decimal numeral: its digits, and how many of them stand after the point. -/
structure Numeral where
  coefficient : ℤ
  scale : ℕ := 0
deriving DecidableEq, Repr

instance (n : ℕ) : OfNat Numeral n := ⟨⟨n, 0⟩⟩

def Numeral.value (n : Numeral) : ℚ := n.coefficient / 10 ^ n.scale

@[simp] theorem Numeral.value_zero : (0 : Numeral).value = 0 := by
  change ((0 : ℤ) : ℚ) / 10 ^ 0 = 0
  simp

/-! ## Rounding -/

/-- The nearest integer, and of two equally near the even one. -/
def roundEven (q : ℚ) : ℤ :=
  if q - ⌊q⌋ < 1 / 2 then ⌊q⌋
  else if 1 / 2 < q - ⌊q⌋ then ⌊q⌋ + 1
  else if ⌊q⌋ % 2 = 0 then ⌊q⌋
  else ⌊q⌋ + 1

theorem roundEven_cases (q : ℚ) : roundEven q = ⌊q⌋ ∨ roundEven q = ⌊q⌋ + 1 ∧ (⌊q⌋ : ℚ) < q := by
  unfold roundEven
  split
  · exact Or.inl rfl
  · rename_i hlow
    have habove : (⌊q⌋ : ℚ) < q := by linarith
    split
    · exact Or.inr ⟨rfl, habove⟩
    · split
      · exact Or.inl rfl
      · exact Or.inr ⟨rfl, habove⟩

@[simp] theorem roundEven_intCast (n : ℤ) : roundEven n = n := by
  rcases roundEven_cases (n : ℚ) with h | ⟨-, hlt⟩
  · rw [h, Int.floor_intCast]
  · simp at hlt

theorem roundEven_le {q : ℚ} {n : ℤ} (h : q ≤ n) : roundEven q ≤ n := by
  rcases roundEven_cases q with heq | ⟨heq, hlt⟩
  · rw [heq]
    exact_mod_cast (Int.floor_le q).trans h
  · have hfloor : ⌊q⌋ < n := by exact_mod_cast hlt.trans_le h
    omega

theorem le_roundEven {q : ℚ} {n : ℤ} (h : (n : ℚ) ≤ q) : n ≤ roundEven q := by
  have hfloor : n ≤ ⌊q⌋ := Int.le_floor.mpr h
  rcases roundEven_cases q with heq | ⟨heq, -⟩ <;> omega

theorem abs_roundEven_le {q : ℚ} {n : ℤ} (h : |q| ≤ n) : |roundEven q| ≤ n := by
  obtain ⟨hlow, hhigh⟩ := abs_le.mp h
  exact abs_le.mpr ⟨le_roundEven (by exact_mod_cast hlow), roundEven_le hhigh⟩

/-! ## Binary64 -/

/-- The exponent of the last binary place of the binary64 numbers around `q`. -/
def lastPlace (q : ℚ) : ℤ := max (Int.log 2 |q| - 52) (-1074)

/-- The nearest binary64 number, and of two equally near the one with the even
significand; none when that is an infinity. -/
def binary64 (q : ℚ) : Option ℚ :=
  let x : ℚ := roundEven (q / 2 ^ lastPlace q) * 2 ^ lastPlace q
  if |x| < 2 ^ 1024 then some x else none

theorem binary64_eq_some {q x : ℚ} : binary64 q = some x ↔
    x = roundEven (q / 2 ^ lastPlace q) * 2 ^ lastPlace q ∧ |x| < 2 ^ 1024 := by
  unfold binary64
  simp only [Option.ite_none_right_eq_some, Option.some.injEq]
  constructor
  · rintro ⟨hlt, rfl⟩
    exact ⟨rfl, hlt⟩
  · rintro ⟨rfl, hlt⟩
    exact ⟨hlt, rfl⟩

theorem abs_lt_zpow_lastPlace (q : ℚ) : |q| < 2 ^ (lastPlace q + 53) := by
  have hlog : |q| < 2 ^ (Int.log 2 |q| + 1) := by
    exact_mod_cast Int.lt_zpow_succ_log_self (b := 2) (by norm_num) |q|
  refine hlog.trans_le (zpow_le_zpow_right₀ (by norm_num) ?_)
  have := le_max_left (Int.log 2 |q| - 52) (-1074)
  unfold lastPlace
  omega

theorem lastPlace_le {x : ℚ} {e : ℤ} (hx : x ≠ 0) (he : -1074 ≤ e) (h : |x| < 2 ^ (e + 53)) :
    lastPlace x ≤ e := by
  have hlog : Int.log 2 |x| < e + 53 := by
    rw [← Int.lt_zpow_iff_log_lt (by norm_num) (abs_pos.mpr hx)]
    exact_mod_cast h
  unfold lastPlace
  omega

/-- Rounding at a place leaves a multiple of a higher place alone. -/
theorem roundEven_multiple {r : ℤ} {e d : ℤ} (h : d ≤ e) :
    (roundEven ((r : ℚ) * 2 ^ e / 2 ^ d) : ℚ) * 2 ^ d = r * 2 ^ e := by
  obtain ⟨n, rfl⟩ := Int.le.dest h
  have hd : (2 : ℚ) ^ d ≠ 0 := zpow_ne_zero _ (by norm_num)
  have hint : (r : ℚ) * 2 ^ (d + n) / 2 ^ d = ((r * 2 ^ n : ℤ) : ℚ) := by
    rw [zpow_add₀ (by norm_num), zpow_natCast]
    field_simp
    push_cast
    ring
  rw [hint, roundEven_intCast, ← hint, div_mul_cancel₀ _ hd]

/-- A significand below 53 bits at a place of the format is a binary64 number. -/
theorem binary64_self {r e : ℤ} {x : ℚ} (hx : x = r * 2 ^ e) (hr : |r| < 2 ^ 53) (he : -1074 ≤ e)
    (hrange : |x| < 2 ^ 1024) : binary64 x = some x := by
  refine binary64_eq_some.mpr ⟨?_, hrange⟩
  rcases eq_or_ne x 0 with hzero | hne
  · have hround : roundEven 0 = 0 := by simpa using roundEven_intCast 0
    simp [hzero, hround]
  · have h2e : (0 : ℚ) < 2 ^ e := by positivity
    have hsmall : |x| < 2 ^ (e + 53) := by
      rw [hx, abs_mul, abs_of_pos h2e, zpow_add₀ (by norm_num), mul_comm]
      refine mul_lt_mul_of_pos_left ?_ h2e
      exact_mod_cast hr
    have hplace := lastPlace_le hne he hsmall
    calc x = r * 2 ^ e := hx
      _ = roundEven (r * 2 ^ e / 2 ^ lastPlace x) * 2 ^ lastPlace x :=
        (roundEven_multiple hplace).symm
      _ = roundEven (x / 2 ^ lastPlace x) * 2 ^ lastPlace x := by rw [← hx]

theorem binary64_significand {q x : ℚ} (h : binary64 q = some x) :
    ∃ r e : ℤ, x = r * 2 ^ e ∧ |r| < 2 ^ 53 ∧ -1074 ≤ e := by
  obtain ⟨hx, -⟩ := binary64_eq_some.mp h
  have hlow : -1074 ≤ lastPlace q := le_max_right _ _
  have hpos : (0 : ℚ) < 2 ^ lastPlace q := by positivity
  have hbits : |roundEven (q / 2 ^ lastPlace q)| ≤ 2 ^ 53 := by
    refine abs_roundEven_le ?_
    rw [abs_div, abs_of_pos hpos, div_le_iff₀ hpos]
    calc |q| ≤ 2 ^ (lastPlace q + 53) := (abs_lt_zpow_lastPlace q).le
      _ = ((2 ^ 53 : ℤ) : ℚ) * 2 ^ lastPlace q := by
        rw [zpow_add₀ (by norm_num), mul_comm]
        norm_num
  rcases lt_or_eq_of_le hbits with hlt | heq
  · exact ⟨_, _, hx, hlt, hlow⟩
  -- Rounding up to the next power of two: half the significand, one place higher.
  · have hhalf : ∃ r : ℤ, roundEven (q / 2 ^ lastPlace q) = r * 2 ∧ |r| < 2 ^ 53 := by
      rcases eq_or_eq_neg_of_abs_eq heq with hr | hr
      · exact ⟨2 ^ 52, by rw [hr]; norm_num, by norm_num⟩
      · exact ⟨-2 ^ 52, by rw [hr]; norm_num, by norm_num⟩
    obtain ⟨r, hr, hlt⟩ := hhalf
    refine ⟨r, lastPlace q + 1, ?_, hlt, by omega⟩
    rw [hx, hr, zpow_add₀ (by norm_num)]
    push_cast
    ring

/-- A binary64 number is the nearest one to itself. -/
theorem binary64_idem {q x : ℚ} (h : binary64 q = some x) : binary64 x = some x := by
  obtain ⟨r, e, hx, hr, he⟩ := binary64_significand h
  exact binary64_self hx hr he (binary64_eq_some.mp h).2

/-! ## The shortest numeral of a binary64 number -/

/-- The numeral of `c · 10 ^ k` as a float is written: below `10 ^ 16` with at
least one digit after the point. -/
def written (c k : ℤ) : Numeral :=
  let scale := if |(c * 10 ^ k : ℚ)| < 10 ^ 16 then max 1 (-k).toNat else (-k).toNat
  ⟨c * 10 ^ (k + scale).toNat, scale⟩

theorem written_value (c k : ℤ) : (written c k).value = c * 10 ^ k := by
  have hscale : ∀ n : ℕ, (-k).toNat ≤ n →
      (Numeral.mk (c * 10 ^ (k + n).toNat) n).value = c * 10 ^ k := by
    intro n hn
    have hk : k = ((k + n).toNat : ℤ) - n := by omega
    unfold Numeral.value
    conv_rhs => rw [hk, zpow_sub₀ (by norm_num), zpow_natCast, zpow_natCast]
    push_cast
    ring
  unfold written
  split
  · exact hscale _ (le_max_right _ _)
  · exact hscale _ le_rfl

/-- The numeral with `n + 1` digits that reads as `x`: of the two around `x`
the nearer one, if it does. -/
def digits? (x : ℚ) (n : ℕ) : Option Numeral :=
  let k := Int.log 10 |x| - n
  let near := roundEven (x / 10 ^ k)
  let far := if near = ⌊x / 10 ^ k⌋ then near + 1 else near - 1
  ([near, far].find? fun c : ℤ => binary64 ((c : ℚ) * 10 ^ k) = some x).map (written · k)

theorem digits?_reads {x : ℚ} {n : ℕ} {m : Numeral} (h : digits? x n = some m) :
    binary64 m.value = some x := by
  obtain ⟨c, hc, rfl⟩ := Option.map_eq_some_iff.mp h
  rw [written_value]
  simpa using List.find?_some hc

/-- Every digit of a binary64 number. -/
def exactly (x : ℚ) : Numeral :=
  let e := lastPlace x
  ⟨roundEven (x / 2 ^ e) * 2 ^ e.toNat * 5 ^ (-e).toNat, (-e).toNat⟩

theorem exactly_value {x : ℚ} (h : binary64 x = some x) : (exactly x).value = x := by
  obtain ⟨hx, -⟩ := binary64_eq_some.mp h
  conv_rhs => rw [hx]
  have hten : (10 : ℚ) = 2 * 5 := by norm_num
  have hpow : ∀ e : ℤ, (2 : ℚ) ^ e.toNat * 5 ^ (-e).toNat / 10 ^ (-e).toNat = 2 ^ e := by
    intro e
    rcases le_total 0 e with hle | hle
    · obtain ⟨n, rfl⟩ := Int.eq_ofNat_of_zero_le hle
      simp
    · obtain ⟨n, hn⟩ := Int.eq_ofNat_of_zero_le (neg_nonneg.mpr hle)
      obtain rfl : e = -(n : ℤ) := by omega
      have hzero : (-(n : ℤ)).toNat = 0 := by omega
      rw [hzero, neg_neg, Int.toNat_natCast, hten, mul_pow, zpow_neg, zpow_natCast]
      field_simp
  unfold exactly Numeral.value
  push_cast
  rw [mul_assoc, mul_div_assoc, hpow]

/-- The fewest digits that read as `x`; a binary64 number never needs more
than seventeen. -/
def shortest (x : ℚ) : Numeral := ((List.range 17).findSome? (digits? x)).getD (exactly x)

/-- What is written for a binary64 number reads as that number. -/
theorem binary64_shortest {x : ℚ} (h : binary64 x = some x) :
    binary64 (shortest x).value = some x := by
  unfold shortest
  cases hfound : (List.range 17).findSome? (digits? x) with
  | none =>
      rw [Option.getD_none, exactly_value h]
      exact h
  | some m =>
      obtain ⟨n, -, hn⟩ := List.exists_of_findSome?_eq_some hfound
      exact digits?_reads hn

/-! ## Reading a numeral and writing it again -/

/-- The numeral that is written for what was read; none beyond the range of
binary64. -/
def Numeral.reread (n : Numeral) : Option Numeral :=
  (binary64 n.value).map fun x => if n.scale = 0 then n else shortest x

/-- Reading the numeral and writing it again does not change its value. -/
def Numeral.Survives (n : Numeral) : Prop := n.reread.map Numeral.value = some n.value

instance (n : Numeral) : Decidable n.Survives := inferInstanceAs (Decidable (_ = _))

/-- What was written once survives. -/
theorem Numeral.survives_of_reread {n m : Numeral} (h : n.reread = some m) : m.Survives := by
  obtain ⟨x, hx, rfl⟩ := Option.map_eq_some_iff.mp h
  split
  · rename_i hscale
    simp [Survives, reread, hx, hscale]
  · have hreads := binary64_shortest (binary64_idem hx)
    simp [Survives, reread, hreads]

/-- An integer of 53 bits survives. -/
theorem Numeral.survives_integer {n : ℤ} (h : |n| < 2 ^ 53) : (Numeral.mk n 0).Survives := by
  have hsmall : |(n : ℚ)| < 2 ^ 1024 := by
    have hbits : |(n : ℚ)| < 2 ^ 53 := by exact_mod_cast h
    exact hbits.trans (pow_lt_pow_right₀ (by norm_num) (by norm_num))
  have hvalue : (Numeral.mk n 0).value = n := by simp [value]
  have hreads : binary64 n = some (n : ℚ) :=
    binary64_self (r := n) (e := 0) (by simp) h (by norm_num) hsmall
  simp [Survives, reread, hreads, hvalue]

theorem Numeral.survives_zero : (0 : Numeral).Survives := survives_integer (by norm_num)

example : (Numeral.mk 100000000000000000001 20).reread = some ⟨10, 1⟩ := by decide +kernel

end CrawlTrove.Numerals
