import Mathlib
import ObjScript.Number.Numeral

/-!
# Doubles that are met exactly

A quotient that is a double is not changed by rounding: `nearestBits` gives the bits of the double
(`nearestBits_exact`).  A double is known by its bits (`ofBits_toBits`), and so by its sign and its
magnitude (`ofMagnitude_of_parts`).
-/

namespace ObjScript.Number

/-! ### The nearest double -/

/-- Dividing by a power changes the value of a fraction as it should. -/
theorem unscale_value {base den : Nat} (num : Nat) (hbase : 0 < base) (hden : 0 < den) (e : Int) :
    0 < (unscale base num den e).2 ∧
      ((unscale base num den e).1 : ℚ) / (unscale base num den e).2 = num / den / (base : ℚ) ^ e := by
  have hb : (base : ℚ) ≠ 0 := by positivity
  have hd : (den : ℚ) ≠ 0 := by positivity
  unfold unscale
  split
  · rename_i h
    obtain ⟨k, rfl⟩ := Int.eq_ofNat_of_zero_le h
    refine ⟨Nat.mul_pos hden (Nat.pow_pos hbase), ?_⟩
    simp only [Int.toNat_natCast, zpow_natCast, Nat.pow_eq]
    push_cast
    field_simp
  · obtain ⟨k, hk⟩ := Int.eq_ofNat_of_zero_le (show 0 ≤ -e by omega)
    obtain rfl : e = -(k : Int) := by omega
    refine ⟨hden, ?_⟩
    simp only [neg_neg, Int.toNat_natCast, zpow_neg, zpow_natCast, Nat.pow_eq]
    push_cast
    field_simp

private theorem log2_bounds {n : Nat} (h : 0 < n) :
    (2 : ℚ) ^ (n.log2 : Int) ≤ n ∧ (n : ℚ) < 2 ^ ((n.log2 : Int) + 1) := by
  have hlow := Nat.log2_self_le (Nat.ne_of_gt h)
  have hhigh := @Nat.lt_log2_self n
  constructor
  · exact_mod_cast hlow
  · exact_mod_cast hhigh

/-- The logarithms of both numbers give the exponent up to one. -/
private theorem log2_sub_bounds {num den : Nat} (hnum : 0 < num) (hden : 0 < den) :
    (2 : ℚ) ^ ((num.log2 : Int) - den.log2 - 1) ≤ num / den ∧
      (num : ℚ) / den < 2 ^ ((num.log2 : Int) - den.log2 + 1) := by
  have hd : (0 : ℚ) < den := by positivity
  have two : (2 : ℚ) ≠ 0 := by norm_num
  obtain ⟨hn, hn'⟩ := log2_bounds hnum
  obtain ⟨hd₁, hd₂⟩ := log2_bounds hden
  constructor
  · rw [le_div_iff₀ hd]
    calc (2 : ℚ) ^ ((num.log2 : Int) - den.log2 - 1) * den
        ≤ 2 ^ ((num.log2 : Int) - den.log2 - 1) * 2 ^ ((den.log2 : Int) + 1) := by gcongr
      _ = 2 ^ (num.log2 : Int) := by rw [← zpow_add₀ two]; congr 1; omega
      _ ≤ num := hn
  · rw [div_lt_iff₀ hd]
    calc (num : ℚ) < 2 ^ ((num.log2 : Int) + 1) := hn'
      _ = 2 ^ ((num.log2 : Int) - den.log2 + 1) * 2 ^ (den.log2 : Int) := by
        rw [← zpow_add₀ two]; congr 1; omega
      _ ≤ 2 ^ ((num.log2 : Int) - den.log2 + 1) * den := by gcongr

theorem binaryExponent_bounds {num den : Nat} (hnum : 0 < num) (hden : 0 < den) :
    (2 : ℚ) ^ binaryExponent num den ≤ num / den ∧ (num : ℚ) / den < 2 ^ (binaryExponent num den + 1) := by
  obtain ⟨hlow, hhigh⟩ := log2_sub_bounds hnum hden
  obtain ⟨hb, hval⟩ := unscale_value num (by decide : 0 < 2) hden ((num.log2 : Int) - den.log2)
  unfold binaryExponent
  simp only
  generalize (num.log2 : Int) - den.log2 = e at *
  generalize unscale 2 num den e = p at *
  have hb : (0 : ℚ) < p.2 := by exact_mod_cast hb
  have hp : (0 : ℚ) < (2 : Nat) ^ e := by positivity
  have hle : p.2 ≤ p.1 ↔ (2 : ℚ) ^ e ≤ num / den := by
    rw [← @Nat.cast_le ℚ, ← one_le_div hb, hval, one_le_div hp, Nat.cast_ofNat]
  split
  · rename_i h
    exact ⟨hle.1 h, hhigh⟩
  · rename_i h
    rw [hle, not_le] at h
    exact ⟨hlow, by rwa [Int.sub_add_cancel]⟩

private theorem roundHalfEven_mul (m : Nat) {b : Nat} (hb : 0 < b) : roundHalfEven (m * b) b = m := by
  unfold roundHalfEven
  simp [Nat.mul_div_cancel _ hb, hb]

/-- The numbers `m * 2 ^ q` that are doubles other than zero. -/
structure IsDouble (m : Nat) (q : Int) : Prop where
  pos : 0 < m
  lt : m < 2 ^ 53
  least : -1074 ≤ q
  greatest : q ≤ 971
  normal : 2 ^ 52 ≤ m ∨ q = -1074

private theorem IsDouble.exponent {m : Nat} {q e : Int} (h : IsDouble m q) (hlow : (2 : ℚ) ^ e ≤ m * 2 ^ q)
    (hhigh : (m : ℚ) * 2 ^ q < 2 ^ (e + 1)) : max (e - 52) leastExponent = q := by
  have one : (1 : ℚ) < 2 := by norm_num
  have two : (2 : ℚ) ≠ 0 := by norm_num
  have hp : (0 : ℚ) < 2 ^ q := by positivity
  have hlt : (m : ℚ) < 2 ^ (53 : Int) := by exact_mod_cast h.lt
  have hupper : (m : ℚ) * 2 ^ q < 2 ^ (53 + q) := by
    rw [zpow_add₀ two]
    exact (mul_lt_mul_iff_left₀ hp).2 hlt
  have he := (zpow_lt_zpow_iff_right₀ one).1 (hlow.trans_lt hupper)
  have hleast : leastExponent = -1074 := rfl
  rcases h.normal with hm | rfl
  · have hge : (2 : ℚ) ^ (52 : Int) ≤ m := by exact_mod_cast hm
    have hlower : (2 : ℚ) ^ (52 + q) ≤ m * 2 ^ q := by
      rw [zpow_add₀ two]
      exact (mul_le_mul_iff_left₀ hp).2 hge
    have he' := (zpow_lt_zpow_iff_right₀ one).1 (hlower.trans_lt hhigh)
    have := h.least
    omega
  · omega

/-- A quotient that is a double is rounded to that double. -/
theorem nearestBits_exact {num den m : Nat} {q : Int} (hden : 0 < den) (hd : IsDouble m q)
    (h : (num : ℚ) / den = m * 2 ^ q) : nearestBits num den = (q + 1074).toNat * exponentUnit + m := by
  have hm : (0 : ℚ) < m := by exact_mod_cast hd.pos
  have hpos : (0 : ℚ) < num / den := by rw [h]; positivity
  have hnum : 0 < num := by
    rcases Nat.eq_zero_or_pos num with rfl | hnum
    · simp at hpos
    · exact hnum
  obtain ⟨hlow, hhigh⟩ := binaryExponent_bounds hnum hden
  rw [h] at hlow hhigh
  have hq : max (binaryExponent num den - 52) leastExponent = q := hd.exponent hlow hhigh
  obtain ⟨hb, hval⟩ := unscale_value num (by decide : 0 < 2) hden q
  unfold nearestBits
  rw [if_neg (Nat.ne_of_gt hnum)]
  simp only [hq]
  generalize unscale 2 num den q = p at *
  have hb' : (p.2 : ℚ) ≠ 0 := by positivity
  have hmul : p.1 = m * p.2 := by
    rw [h, Nat.cast_ofNat, mul_div_cancel_right₀ _ (by positivity), div_eq_iff hb'] at hval
    exact_mod_cast hval
  rw [hmul, roundHalfEven_mul m hb, show q - leastExponent = q + 1074 from rfl, Nat.min_eq_left]
  have := hd.lt
  have := hd.greatest
  have := hd.least
  unfold infinityBits exponentUnit
  simp only [Nat.pow_eq]
  omega

/-! ### The bits of a double -/

section Bits

open Float.Model Float.Model.UnpackedFloat

private theorem packComponents_unpack (b : BitVec 64) :
    packComponents .binary64 (Sign.ofBitVec (@unpackSign .binary64 b)) (@unpackExponent .binary64 b)
      (@unpackMantissa .binary64 b) = b := by
  have hs : (Sign.ofBitVec (@unpackSign .binary64 b)).toBitVec = @unpackSign .binary64 b := by
    generalize @unpackSign .binary64 b = s
    revert s; decide
  unfold packComponents
  rw [hs]
  unfold unpackSign unpackExponent unpackMantissa
  apply BitVec.eq_of_getLsbD_eq
  intro i hi
  have hi : i < 64 := hi
  simp only [BitVec.getLsbD_append, BitVec.getLsbD_cast, BitVec.getLsbD_extractLsb]
  split
  · simp [show i < 52 - 1 - 0 + 1 by omega]
  · split
    · rw [show 52 + (i - 52) = i by omega]
      simp [show i - 52 < 52 + 11 - 1 - 52 + 1 by omega]
    · rw [show 52 + 11 + (i - 52 - 11) = i by omega]
      simp [show i - 52 - 11 < 1 by omega]

private theorem pack_subnormal (s : Sign) (m : BitVec 52) (h : 0 < m.toNat) :
    UnpackedFloat.pack .binary64 (.finite s m.toNat (-1074) h) = packComponents .binary64 s 0 m := by
  have hlog : m.toNat.log2 < 52 := (Nat.log2_lt (Nat.ne_of_gt h)).2 m.isLt
  unfold UnpackedFloat.pack
  simp only [Format.exponentBias, Format.mantissaBits, BitVec.ofNat_toNat, BitVec.setWidth_eq]
  rw [if_neg (by decide), if_neg (by omega)]
  rfl

private theorem pack_normal (s : Sign) (m : BitVec 52) (e : BitVec 11) (he : e ≠ -1#11) (h : 0 < (1#1 ++ m).toNat) :
    UnpackedFloat.pack .binary64 (.finite s (1#1 ++ m).toNat ((e.toNat : Int) - (1023 + 52)) h) =
      packComponents .binary64 s e m := by
  have hval : (1#1 ++ m).toNat = 2 ^ 52 + m.toNat := by
    rw [BitVec.toNat_append, Nat.shiftLeft_eq, Nat.mul_comm, ← Nat.two_pow_add_eq_or_of_lt m.isLt]
    rfl
  have hlog : (1#1 ++ m).toNat.log2 = 52 := by
    have := m.isLt
    rw [hval]
    exact (Nat.log2_eq_iff (by omega)).2 (by omega)
  have hbig : e.toNat + 1 < 2 ^ 11 := by
    have : e.toNat ≠ 2 ^ 11 - 1 := fun h => he (BitVec.eq_of_toNat_eq h)
    have := e.isLt
    omega
  have hmod : BitVec.ofNat 52 (1#1 ++ m).toNat = m := by
    apply BitVec.eq_of_toNat_eq
    rw [BitVec.toNat_ofNat, hval, Nat.add_mod_left, Nat.mod_eq_of_lt m.isLt]
  unfold UnpackedFloat.pack
  simp only [Format.exponentBias, Format.mantissaBits, hlog]
  have hexp : ((e.toNat : Int) - (1023 + 52) + (2 ^ (11 - 1) - 1 : Nat) + (52 : Nat)).toNat = e.toNat := by
    omega
  rw [hexp, if_neg (by omega), if_pos trivial, hmod, BitVec.ofNat_toNat, BitVec.setWidth_eq]

private theorem pack_unpack (b : BitVec 64) (h : Format.binary64.Valid b) :
    UnpackedFloat.pack .binary64 (UnpackedFloat.unpack .binary64 b) = b := by
  have hb := packComponents_unpack b
  unfold UnpackedFloat.unpack
  simp only
  split
  · rename_i hspecial
    split
    · rename_i hzero
      rw [hspecial, hzero] at hb
      exact hb
    · rename_i hzero
      exact (h.eq_packedNaN hspecial hzero).symm
  · rename_i hfinite
    split
    · rename_i hsub
      rw [hsub] at hb
      split
      · rename_i hzero
        rw [hzero] at hb
        exact hb
      · rw [hsub]
        exact (pack_subnormal _ _ _).trans hb
    · exact (pack_normal _ _ _ hfinite _).trans hb

/-- A double is known by its bits: there is only one that is not a number. -/
private theorem ofBits_toBits (x : Float) : Float.ofBits x.toBits = x := by
  obtain ⟨⟨b, hb⟩⟩ := x
  have h := pack_unpack b.toBitVec hb
  unfold Float.ofBits Float.toBits Float.Model.ofBits Float.Model.pack
  simp only [h]

/-- The bits of a finite double, as `parts` takes them apart. -/
theorem toBits_of_finite {x : Float} {negative : Bool} {m : Nat} {q : Int} (h : parts x = .finite negative m q) :
    x.toBits.toNat = (if negative then signUnit else 0) + ((q + 1074).toNat * exponentUnit + m) ∧
      (m = 0 ∧ q = -1074 ∨ IsDouble m q) := by
  have hlt : x.toBits.toNat < 2 ^ 64 := x.toBits.toNat_lt
  have hsign : signUnit = 9223372036854775808 := rfl
  have hunit : exponentUnit = 4503599627370496 := rfl
  have hleast : leastExponent = -1074 := rfl
  unfold parts Parts.ofBits at h
  generalize x.toBits.toNat = bits at *
  simp only [hsign, hunit, hleast] at h ⊢
  split at h
  · split at h <;> cases h
  · rename_i hfield
    split at h
    · rename_i hzero
      cases h
      refine ⟨by split <;> simp_all <;> omega, ?_⟩
      rcases Nat.eq_zero_or_pos (bits % 4503599627370496) with h0 | h0
      · exact .inl ⟨h0, rfl⟩
      · exact .inr ⟨h0, by omega, by omega, by omega, .inr rfl⟩
    · rename_i hnormal
      cases h
      refine ⟨by split <;> simp_all <;> omega, .inr ⟨by omega, by omega, by omega, by omega, .inl (by omega)⟩⟩

theorem toBits_of_infinite {x : Float} {negative : Bool} (h : parts x = .infinite negative) :
    x.toBits.toNat = (if negative then signUnit else 0) + infinityBits := by
  have hlt : x.toBits.toNat < 2 ^ 64 := x.toBits.toNat_lt
  have hsign : signUnit = 9223372036854775808 := rfl
  have hunit : exponentUnit = 4503599627370496 := rfl
  have hinf : infinityBits = 2047 * exponentUnit := rfl
  unfold parts Parts.ofBits at h
  generalize x.toBits.toNat = bits at *
  simp only at h
  split at h
  · split at h
    · cases h
      split <;> simp_all <;> omega
    · cases h
  · split at h <;> cases h

/-- A double is known by its sign and its magnitude. -/
theorem ofMagnitude_toBits {x : Float} {negative : Bool} {bits : Nat}
    (h : x.toBits.toNat = (if negative then signUnit else 0) + bits) : ofMagnitude negative bits = x := by
  have hif : (if negative then signUnit + bits else bits) = x.toBits.toNat := by
    rw [h]
    split
    · rfl
    · rw [Nat.zero_add]
  unfold ofMagnitude
  rw [hif, UInt64.ofNat_toNat, ofBits_toBits]

/-- There is only one double that is not a number. -/
theorem eq_notANumber {x : Float} (h : parts x = .nan) : x = notANumber := by
  have hvalid := x.toModel.valid
  have hlt : x.toBits.toNat < 2 ^ 64 := x.toBits.toNat_lt
  have hsign : signUnit = 9223372036854775808 := rfl
  have hunit : exponentUnit = 4503599627370496 := rfl
  have hfields : x.toBits.toNat % signUnit / exponentUnit = 2047 ∧ x.toBits.toNat % exponentUnit ≠ 0 := by
    unfold parts Parts.ofBits at h
    simp only at h
    split at h
    · split at h
      · cases h
      · exact ⟨‹_›, ‹_›⟩
    · split at h <;> cases h
  rw [hsign, hunit] at hfields
  have hexp : @unpackExponent .binary64 x.toBits.toBitVec = -1#11 := by
    apply BitVec.eq_of_toNat_eq
    show (x.toBits.toNat >>> 52) % 2 ^ 11 = 2047
    rw [Nat.shiftRight_eq_div_pow]
    omega
  have hman : @unpackMantissa .binary64 x.toBits.toBitVec ≠ 0#52 := by
    intro hzero
    have : (x.toBits.toNat >>> 0) % 2 ^ 52 = 0 := congrArg BitVec.toNat hzero
    rw [Nat.shiftRight_zero] at this
    omega
  have hbits : x.toBits.toBitVec = packedNaN .binary64 := hvalid.eq_packedNaN hexp hman
  have : x.toBits = UInt64.ofBitVec (packedNaN .binary64) := UInt64.toBitVec_inj.1 hbits
  rw [← ofBits_toBits x, this]
  decide +kernel

end Bits

end ObjScript.Number
