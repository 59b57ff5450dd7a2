import ObjScript.Number.Decimal
import ObjScript.Proofs.Number.Exact

/-!
# Rounding depends on the value

The double nearest to a fraction is found from its numerator and denominator, and the one nearest to a decimal number
from its digits and its exponent, very large and very small exponents being met without any power.  Both depend on
the value alone: equal fractions have the same nearest double (`nearestBits_congr`), and so have a decimal number and
every fraction that is equal to it (`Decimal.magnitudeBits_eq_nearestBits`).
-/

namespace ObjScript.Number

variable {num den num' den' : Nat}

/-! ### Fractions of one value -/

private theorem roundHalfEven_mul_left {k : Nat} (hk : 0 < k) (a b : Nat) :
    roundHalfEven (k * a) (k * b) = roundHalfEven a b := by
  have hsmaller : ∀ x y : Nat, k * x < k * y ↔ x < y := fun x y => Nat.mul_lt_mul_left hk
  unfold roundHalfEven
  simp only [Nat.mul_div_mul_left _ _ hk, Nat.mul_mod_mul_left, Nat.mul_left_comm 2 k, hsmaller]

/-- Equal quotients are rounded to the same integer. -/
private theorem roundHalfEven_congr {a b a' b' : Nat} (hb : 0 < b) (hb' : 0 < b') (h : (a : ℚ) / b = a' / b') :
    roundHalfEven a b = roundHalfEven a' b' := by
  have hcross : a * b' = a' * b := by
    rw [div_eq_div_iff (by positivity) (by positivity)] at h
    exact_mod_cast h
  calc roundHalfEven a b = roundHalfEven (b' * a) (b' * b) := (roundHalfEven_mul_left hb' a b).symm
    _ = roundHalfEven (b * a') (b * b') := by rw [Nat.mul_comm b' a, hcross, Nat.mul_comm a' b, Nat.mul_comm b' b]
    _ = roundHalfEven a' b' := roundHalfEven_mul_left hb a' b'

/-- There is one power of two between the half of a number and the number. -/
private theorem binaryExponent_congr (hnum : 0 < num) (hden : 0 < den) (hnum' : 0 < num') (hden' : 0 < den')
    (h : (num : ℚ) / den = num' / den') : binaryExponent num den = binaryExponent num' den' := by
  have one : (1 : ℚ) < 2 := by norm_num
  obtain ⟨hlow, hhigh⟩ := binaryExponent_bounds hnum hden
  obtain ⟨hlow', hhigh'⟩ := binaryExponent_bounds hnum' hden'
  rw [h] at hlow hhigh
  have hle := (zpow_lt_zpow_iff_right₀ one).1 (hlow.trans_lt hhigh')
  have hge := (zpow_lt_zpow_iff_right₀ one).1 (hlow'.trans_lt hhigh)
  omega

private theorem pos_of_div_pos (h : (0 : ℚ) < num / den) : 0 < num := by
  rcases Nat.eq_zero_or_pos num with rfl | hnum
  · simp at h
  · exact hnum

private theorem nearestBits_zero (den : Nat) : nearestBits 0 den = 0 := by
  rw [nearestBits, if_pos rfl]

/-- Equal fractions have the same nearest double. -/
private theorem nearestBits_congr (hden : 0 < den) (hden' : 0 < den') (h : (num : ℚ) / den = num' / den') :
    nearestBits num den = nearestBits num' den' := by
  rcases Nat.eq_zero_or_pos num with rfl | hnum
  · have hzero : num' = 0 := by
      rw [Nat.cast_zero, zero_div, eq_comm, div_eq_zero_iff] at h
      exact_mod_cast h.resolve_right (by positivity)
    rw [hzero, nearestBits_zero, nearestBits_zero]
  · have hpos : (0 : ℚ) < num' / den' := by rw [← h]; positivity
    have hnum' := pos_of_div_pos hpos
    unfold nearestBits
    rw [if_neg (Nat.ne_of_gt hnum), if_neg (Nat.ne_of_gt hnum'), binaryExponent_congr hnum hden hnum' hden' h]
    dsimp only
    generalize max (binaryExponent num' den' - 52) leastExponent = q
    obtain ⟨hb, hval⟩ := unscale_value num (by decide : 0 < 2) hden q
    obtain ⟨hb', hval'⟩ := unscale_value num' (by decide : 0 < 2) hden' q
    rw [roundHalfEven_congr hb hb' (by rw [hval, hval', h])]

/-! ### Fractions that are too large or too small -/

private theorem le_roundHalfEven {a b n : Nat} (hb : 0 < b) (h : (n : ℚ) ≤ a / b) : n ≤ roundHalfEven a b := by
  have hle : n ≤ a / b := by
    rw [Nat.le_div_iff_mul_le hb]
    rw [le_div_iff₀ (by positivity)] at h
    exact_mod_cast h
  unfold roundHalfEven
  dsimp only
  split
  · exact hle
  · split
    · omega
    · omega

private theorem roundHalfEven_eq_zero {a b : Nat} (hb : 0 < b) (h : (a : ℚ) / b < 1 / 2) : roundHalfEven a b = 0 := by
  have hlt : 2 * a < b := by
    rw [div_lt_div_iff₀ (by positivity) (by norm_num)] at h
    have : a * 2 < 1 * b := by exact_mod_cast h
    omega
  unfold roundHalfEven
  rw [Nat.mod_eq_of_lt (by omega), Nat.div_eq_of_lt (by omega)]
  dsimp only
  rw [if_pos hlt]

/-- From `2 ^ 1024` on everything is infinite. -/
private theorem nearestBits_of_large (hden : 0 < den) (h : (2 : ℚ) ^ (1024 : Int) ≤ num / den) :
    nearestBits num den = infinityBits := by
  have one : (1 : ℚ) < 2 := by norm_num
  have two : (2 : ℚ) ≠ 0 := by norm_num
  have hnum : 0 < num := pos_of_div_pos (lt_of_lt_of_le (by positivity) h)
  obtain ⟨hlow, hhigh⟩ := binaryExponent_bounds hnum hden
  have he := (zpow_lt_zpow_iff_right₀ one).1 (h.trans_lt hhigh)
  unfold nearestBits
  rw [if_neg (Nat.ne_of_gt hnum)]
  have hleast : leastExponent = -1074 := rfl
  have hq : max (binaryExponent num den - 52) leastExponent = binaryExponent num den - 52 := by omega
  rw [hq]
  dsimp only
  obtain ⟨hb, hval⟩ := unscale_value num (by decide : 0 < 2) hden (binaryExponent num den - 52)
  have hround : 2 ^ 52 ≤ roundHalfEven (unscale 2 num den (binaryExponent num den - 52)).1
      (unscale 2 num den (binaryExponent num den - 52)).2 := by
    refine le_roundHalfEven hb ?_
    rw [hval, Nat.cast_ofNat, le_div_iff₀ (by positivity)]
    calc ((2 ^ 52 : Nat) : ℚ) * 2 ^ (binaryExponent num den - 52) = 2 ^ binaryExponent num den := by
          rw [Nat.cast_pow, Nat.cast_ofNat, ← zpow_natCast, ← zpow_add₀ two]
          congr 1
          omega
      _ ≤ num / den := hlow
  rw [Nat.min_eq_right]
  unfold infinityBits exponentUnit
  simp only [Nat.pow_eq]
  omega

/-- Below half of the least double everything is zero. -/
private theorem nearestBits_of_small (hden : 0 < den) (h : (num : ℚ) / den < 2 ^ (-1075 : Int)) :
    nearestBits num den = 0 := by
  have one : (1 : ℚ) < 2 := by norm_num
  have two : (2 : ℚ) ≠ 0 := by norm_num
  unfold nearestBits
  split
  · rfl
  next hnum =>
  obtain ⟨hlow, -⟩ := binaryExponent_bounds (Nat.pos_of_ne_zero hnum) hden
  have he := (zpow_lt_zpow_iff_right₀ one).1 (hlow.trans_lt h)
  have hleast : leastExponent = -1074 := rfl
  have hq : max (binaryExponent num den - 52) leastExponent = -1074 := by omega
  rw [hq]
  dsimp only
  obtain ⟨hb, hval⟩ := unscale_value num (by decide : 0 < 2) hden (-1074)
  rw [roundHalfEven_eq_zero hb]
  · rfl
  · rw [hval, Nat.cast_ofNat, div_lt_iff₀ (by positivity)]
    calc (num : ℚ) / den < 2 ^ (-1075 : Int) := h
      _ = 1 / 2 * 2 ^ (-1074 : Int) := by
        rw [show (-1075 : Int) = -1 + -1074 by norm_num, zpow_add₀ two]
        norm_num

/-! ### Decimal numbers -/

namespace Decimal

/-- The number that the digits and the exponent stand for. -/
def value (d : Decimal) : ℚ :=
  d.digits * 10 ^ d.exponent

/-- A decimal number is rounded to the double nearest to any fraction of its value. -/
private theorem magnitudeBits_eq_nearestBits {d : Decimal} (hden : 0 < den) (h : d.value = num / den) :
    d.magnitudeBits = nearestBits num den := by
  have ten : (10 : ℚ) ≠ 0 := by norm_num
  have hscaled : ∀ e : Int, (0 : ℚ) < 10 ^ e := fun e => by positivity
  unfold magnitudeBits
  split
  · next hzero =>
    rw [value, hzero, Nat.cast_zero, zero_mul] at h
    have hsame : ((0 : Nat) : ℚ) / (1 : Nat) = num / den := by rw [Nat.cast_zero, zero_div, h]
    rw [← nearestBits_congr Nat.one_pos hden hsame, nearestBits_zero]
  next hdigits =>
  have hpos : (1 : ℚ) ≤ d.digits := by exact_mod_cast Nat.pos_of_ne_zero hdigits
  split
  · next hlarge =>
    refine (nearestBits_of_large hden ?_).symm
    have hpowers : 2 ^ 1024 ≤ 10 ^ 310 := by decide +kernel
    calc (2 : ℚ) ^ (1024 : Int) ≤ 10 ^ (310 : Int) := by exact_mod_cast hpowers
      _ ≤ 10 ^ d.exponent := zpow_le_zpow_right₀ (by norm_num) hlarge
      _ ≤ d.digits * 10 ^ d.exponent := le_mul_of_one_le_left (hscaled _).le hpos
      _ = num / den := h
  split
  · next hsmall =>
    refine (nearestBits_of_small hden ?_).symm
    have hpowers : 2 ^ 1075 ≤ 10 ^ 331 := by decide +kernel
    have hlog : (d.digits : ℚ) < 10 ^ ((d.digits.log2 : Int) + 1) := by
      have hlt : d.digits < 10 ^ (d.digits.log2 + 1) :=
        Nat.lt_of_lt_of_le Nat.lt_log2_self (Nat.pow_le_pow_left (by decide) _)
      exact_mod_cast hlt
    calc (num : ℚ) / den = d.digits * 10 ^ d.exponent := h.symm
      _ < 10 ^ ((d.digits.log2 : Int) + 1) * 10 ^ d.exponent := mul_lt_mul_of_pos_right hlog (hscaled _)
      _ = 10 ^ ((d.digits.log2 : Int) + 1 + d.exponent) := (zpow_add₀ ten _ _).symm
      _ ≤ 10 ^ (-331 : Int) := zpow_le_zpow_right₀ (by norm_num) (by omega)
      _ ≤ 2 ^ (-1075 : Int) := by
        rw [zpow_neg, zpow_neg]
        exact inv_anti₀ (by positivity) (by exact_mod_cast hpowers)
  · obtain ⟨hb, hval⟩ := unscale_value d.digits (by decide : 0 < 10) Nat.one_pos (-d.exponent)
    refine nearestBits_congr hb hden (hval.trans ?_)
    rw [← h, value, Nat.cast_one, div_one, zpow_neg, div_inv_eq_mul, Nat.cast_ofNat]

/-- Decimal numbers of one value are rounded to the same double. -/
theorem magnitudeBits_congr {d d' : Decimal} (h : d.value = d'.value) : d.magnitudeBits = d'.magnitudeBits := by
  obtain ⟨hb, hval⟩ := unscale_value d.digits (by decide : 0 < 10) Nat.one_pos (-d.exponent)
  have hfraction : d.value = (unscale 10 d.digits 1 (-d.exponent)).1 / (unscale 10 d.digits 1 (-d.exponent)).2 := by
    rw [hval, value, Nat.cast_one, div_one, zpow_neg, div_inv_eq_mul, Nat.cast_ofNat]
  rw [magnitudeBits_eq_nearestBits hb hfraction, magnitudeBits_eq_nearestBits hb (h.symm.trans hfraction)]

end Decimal

end ObjScript.Number
