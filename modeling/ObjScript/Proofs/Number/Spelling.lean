import ObjScript.Number.Text
import ObjScript.Proofs.Number.Exact

/-!
# A numeral for every double

Every double has a decimal numeral with all of its digits.  `spelling` writes it out, with an exponent if
there are digits after the point, and the names of infinity and of what is not a number; `read?_spelling`
says that it reads back as the same double, the sign of zero included.
-/

namespace ObjScript.Number

open ObjScript.Text (decimalValue? isDecimal)

/-- The digits of a decimal number, and its exponent where there is one.  The exponent is not positive. -/
def Decimal.numeral (d : Decimal) : List Char :=
  digitChars d.digits ++ if d.exponent = 0 then [] else 'e' :: '-' :: digitChars d.exponent.natAbs

/-- A numeral with all digits of a double. -/
def spelling (x : Float) : String :=
  match parts x with
  | .nan => "nan"
  | .infinite negative => String.ofList (signChars negative ++ ['i', 'n', 'f'])
  | .finite negative m q => String.ofList (signChars negative ++ (exactDecimal m q).numeral)

/-! ### Digits -/

private theorem digitChar_value {n : Nat} (h : n < 10) : decimalValue? n.digitChar = some n := by
  revert n
  decide

theorem digitsValue_concat (ds : List Char) (c : Char) :
    digitsValue (ds ++ [c]) = 10 * digitsValue ds + (decimalValue? c).getD 0 := by
  unfold digitsValue
  rw [List.foldl_append]
  rfl

theorem digitsValue_digitChars (n : Nat) : digitsValue (digitChars n) = n := by
  unfold digitChars
  induction n using Nat.strongRecOn with
  | ind n ih =>
    rw [Nat.toDigits_eq_if (by decide)]
    split
    · rename_i h
      show 10 * 0 + (decimalValue? n.digitChar).getD 0 = n
      rw [digitChar_value h, Option.getD_some]
      omega
    · rw [digitsValue_concat, ih (n / 10) (by omega), digitChar_value (by omega), Option.getD_some]
      omega

theorem isDecimal_digitChars (n : Nat) : ∀ c ∈ digitChars n, isDecimal c = true := by
  unfold digitChars
  induction n using Nat.strongRecOn with
  | ind n ih =>
    rw [Nat.toDigits_eq_if (by decide)]
    split
    · rename_i h
      simp [isDecimal, digitChar_value h]
    · intro c hc
      rcases List.mem_append.1 hc with hc | hc
      · exact ih (n / 10) (by omega) c hc
      · rw [List.mem_singleton.1 hc, isDecimal, digitChar_value (by omega), Option.isSome_some]

theorem digitChars_ne_nil (n : Nat) : digitChars n ≠ [] := by
  unfold digitChars
  rw [Nat.toDigits_eq_if (by decide)]
  split <;> simp

/-! ### Reading a numeral -/

/-- A sign before something that begins with a digit. -/
theorem splitSign_signChars (negative : Bool) {s : List Char} (h : ∀ c ∈ s.head?, isDecimal c = true) :
    splitSign (signChars negative ++ s) = (negative, s) := by
  cases negative with
  | true => rfl
  | false =>
    cases s with
    | nil => rfl
    | cons c rest =>
      have hc : isDecimal c = true := h c rfl
      unfold signChars splitSign
      split
      · rename_i heq
        cases heq
        exact absurd hc (by decide)
      · rename_i heq
        cases heq
        exact absurd hc (by decide)
      · rfl

theorem takeWhile_digits {ds tail : List Char} (hd : ∀ c ∈ ds, isDecimal c = true)
    (ht : ∀ c ∈ tail.head?, isDecimal c = false) :
    (ds ++ tail).takeWhile isDecimal = ds ∧ (ds ++ tail).dropWhile isDecimal = tail := by
  rw [List.takeWhile_append_of_pos hd, List.dropWhile_append_of_pos hd]
  cases tail with
  | nil => simp
  | cons c rest => simp [ht c rfl]

/-- Digits without a point are followed by an exponent or nothing. -/
theorem ofChars?_plain {ds tail : List Char} (hne : ds ≠ []) (hds : ∀ c ∈ ds, isDecimal c = true)
    (htail : ∀ c ∈ tail.head?, isDecimal c = false ∧ c ≠ '.') :
    Numeral.ofChars? (ds ++ tail) = (Numeral.exponent? tail).map fun p => ⟨ds, [], p.1, p.2⟩ := by
  obtain ⟨ht, hdrop⟩ := takeWhile_digits hds fun c hc => (htail c hc).1
  unfold Numeral.ofChars?
  simp only [ht, hdrop]
  cases tail with
  | nil => simp [hne]
  | cons c rest =>
    have hc : c ≠ '.' := (htail c rfl).2
    simp [hne, hc]

/-- Digits with a point, before or after it, are followed by an exponent or nothing. -/
theorem ofChars?_pointed {whole fraction tail : List Char} (hne : whole ≠ [] ∨ fraction ≠ [])
    (hwhole : ∀ c ∈ whole, isDecimal c = true) (hfraction : ∀ c ∈ fraction, isDecimal c = true)
    (htail : ∀ c ∈ tail.head?, isDecimal c = false) :
    Numeral.ofChars? (whole ++ '.' :: (fraction ++ tail)) =
      (Numeral.exponent? tail).map fun p => ⟨whole, fraction, p.1, p.2⟩ := by
  have hpoint : ∀ c ∈ ('.' :: (fraction ++ tail)).head?, isDecimal c = false := by simpa using by decide
  obtain ⟨htake, hdrop⟩ := takeWhile_digits hwhole hpoint
  obtain ⟨htake', hdrop'⟩ := takeWhile_digits hfraction htail
  have hsome : (whole.isEmpty && fraction.isEmpty) = false := by
    rcases hne with hne | hne <;> simp [hne]
  unfold Numeral.ofChars?
  simp only [htake, hdrop, ↓reduceIte, htake', hdrop', hsome, Bool.false_eq_true]

private theorem ofChars?_numeral {d : Decimal} (hd : d.exponent ≤ 0) :
    ∃ n, Numeral.ofChars? d.numeral = some n ∧ n.value = d := by
  have hds := isDecimal_digitChars d.digits
  unfold Decimal.numeral
  by_cases h0 : d.exponent = 0
  · refine ⟨⟨digitChars d.digits, [], false, []⟩, ?_, ?_⟩
    · rw [if_pos h0, ofChars?_plain (digitChars_ne_nil _) hds (by simp)]
      rfl
    · have hempty : digitsValue [] = 0 := rfl
      unfold Numeral.value
      simp [digitsValue_digitChars, hempty, ← h0]
  · refine ⟨⟨digitChars d.digits, [], true, digitChars d.exponent.natAbs⟩, ?_, ?_⟩
    · rw [if_neg h0, ofChars?_plain (digitChars_ne_nil _) hds (by simpa using by decide)]
      simp [digitChars_ne_nil, Numeral.exponent?, splitSign]
      exact isDecimal_digitChars _
    · unfold Numeral.value
      simp only [digitsValue_digitChars, List.append_nil, ↓reduceIte, List.length_nil]
      have : -(d.exponent.natAbs : Int) - (0 : Nat) = d.exponent := by omega
      rw [this]

/-! ### All digits of a double -/

private theorem exactDecimal_exponent (m : Nat) (q : Int) : (exactDecimal m q).exponent ≤ 0 := by
  unfold exactDecimal
  split
  · exact Int.le_refl _
  · show q ≤ 0
    omega

private theorem two_mul_le_log2 {m : Nat} (hm : 0 < m) (k : Nat) : 2 * k ≤ (m * 5 ^ k).log2 := by
  rw [Nat.le_log2 (Nat.ne_of_gt (Nat.mul_pos hm (Nat.pow_pos (by decide))))]
  calc 2 ^ (2 * k) = 4 ^ k := Nat.pow_mul 2 2 k
    _ ≤ 5 ^ k := Nat.pow_le_pow_left (by decide) k
    _ ≤ m * 5 ^ k := Nat.le_mul_of_pos_left _ hm

/-- The exact decimal number has the value of the double, and enough digits not to count as zero. -/
theorem exactDecimal_value {m : Nat} (hm : 0 < m) (q : Int) :
    0 < (exactDecimal m q).digits ∧ -(exactDecimal m q).exponent ≤ (exactDecimal m q).digits.log2 ∧
      ((exactDecimal m q).digits : ℚ) * 10 ^ (exactDecimal m q).exponent = m * 2 ^ q := by
  unfold exactDecimal
  split
  · rename_i h
    obtain ⟨k, rfl⟩ := Int.eq_ofNat_of_zero_le h
    refine ⟨Nat.mul_pos hm (Nat.pow_pos (by decide)), by simp, ?_⟩
    simp [Nat.pow_eq]
  · obtain ⟨k, hk⟩ := Int.eq_ofNat_of_zero_le (show 0 ≤ -q by omega)
    obtain rfl : q = -(k : Int) := by omega
    refine ⟨Nat.mul_pos hm (Nat.pow_pos (by decide)), ?_, ?_⟩
    · have := two_mul_le_log2 hm k
      simp only [neg_neg, Int.toNat_natCast, Nat.pow_eq]
      omega
    · simp only [neg_neg, Int.toNat_natCast, Nat.pow_eq, zpow_neg, zpow_natCast]
      push_cast
      rw [show (10 : ℚ) = 5 * 2 by norm_num, mul_pow]
      field_simp

/-- The exact decimal number rounds to the double it was made from. -/
theorem magnitudeBits_exactDecimal {m : Nat} {q : Int} (h : IsDouble m q) :
    (exactDecimal m q).magnitudeBits = (q + 1074).toNat * exponentUnit + m := by
  obtain ⟨hpos, hlog, hval⟩ := exactDecimal_value h.pos q
  have hle := exactDecimal_exponent m q
  generalize exactDecimal m q = d at *
  unfold Decimal.magnitudeBits
  rw [if_neg (Nat.ne_of_gt hpos), if_neg (by omega), if_neg (by omega)]
  obtain ⟨hden, hq⟩ := unscale_value d.digits (by decide : 0 < 10) Nat.one_pos (-d.exponent)
  refine nearestBits_exact hden h (hq.trans ?_)
  rw [← hval, Nat.cast_one, div_one, zpow_neg, div_inv_eq_mul, Nat.cast_ofNat]

private theorem magnitudeBits_exactDecimal_zero (q : Int) : (exactDecimal 0 q).magnitudeBits = 0 := by
  have hdigits : (exactDecimal 0 q).digits = 0 := by
    unfold exactDecimal
    split
    · exact Nat.zero_mul _
    · exact Nat.zero_mul _
  unfold Decimal.magnitudeBits
  rw [if_pos hdigits]

/-- The numeral of a double reads back. -/
theorem read?_spelling (x : Float) : read? (spelling x) = some x := by
  unfold spelling
  cases hx : parts x with
  | nan =>
    rw [eq_notANumber hx]
    decide +kernel
  | infinite negative =>
    have := ofMagnitude_toBits (toBits_of_infinite hx)
    rw [← this]
    cases negative
    · decide +kernel
    · decide +kernel
  | finite negative m q =>
    obtain ⟨hbits, hd⟩ := toBits_of_finite hx
    obtain ⟨n, hn, hval⟩ := ofChars?_numeral (exactDecimal_exponent m q)
    have hhead : ∀ c ∈ (exactDecimal m q).numeral.head?, isDecimal c = true := by
      unfold Decimal.numeral
      rw [List.head?_append_of_ne_nil _ (digitChars_ne_nil _)]
      exact fun c hc => isDecimal_digitChars _ c (List.mem_of_mem_head? hc)
    unfold read?
    simp only [String.toList_ofList, splitSign_signChars negative hhead, hn, hval]
    unfold Decimal.toFloat
    rw [Option.some.injEq]
    rcases hd with ⟨rfl, hq⟩ | hd
    · rw [magnitudeBits_exactDecimal_zero]
      rw [show (q + 1074).toNat = 0 by omega, Nat.zero_mul] at hbits
      exact ofMagnitude_toBits hbits
    · exact ofMagnitude_toBits (magnitudeBits_exactDecimal hd ▸ hbits)

end ObjScript.Number
