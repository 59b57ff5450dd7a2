import ObjScript.Eval.Native
import ObjScript.Eval.Operator
import ObjScript.Proofs.Number.Nearest
import ObjScript.Proofs.Number.Spelling

/-!
# The text of a number reads back

The shortest text of a double shows fewer digits than the double has, but the decimal number that was chosen rounds
to it (`magnitudeBits_shortest`).  Both ways of placing the point spell that decimal number up to its value
(`spells_positional`, `spells_scientific`), and rounding depends on the value alone.  So what is read is the same
double, except that a negative zero loses its sign (`text_reads_back`).
-/

namespace ObjScript.Number

open ObjScript.Text (decimalValue? isDecimal)

/-! ### Digits and zeros -/

private theorem digitsValue_append (ds es : List Char) :
    digitsValue (ds ++ es) = digitsValue ds * 10 ^ es.length + digitsValue es := by
  induction es using List.reverseRecOn with
  | nil =>
    have hempty : digitsValue [] = 0 := rfl
    simp [hempty]
  | append_singleton es c ih =>
    rw [← List.append_assoc, digitsValue_concat, digitsValue_concat, ih, List.length_append, List.length_singleton,
      Nat.pow_succ]
    ring

private theorem digitsValue_zeros (n : Nat) : digitsValue (List.replicate n '0') = 0 := by
  induction n with
  | zero => rfl
  | succ n ih =>
    rw [List.replicate_succ', digitsValue_concat, ih]
    rfl

private theorem isDecimal_zeros (n : Nat) : ∀ c ∈ List.replicate n '0', isDecimal c = true := by
  intro c hc
  rw [List.eq_of_mem_replicate hc]
  decide

/-- Only zeros are dropped. -/
private theorem exists_dropTrailingZeros (ds : List Char) :
    ∃ k, ds = dropTrailingZeros ds ++ List.replicate k '0' := by
  have hzeros : ∀ c ∈ ds.reverse.takeWhile (· = '0'), c = '0' := fun c hc => by simpa using List.mem_takeWhile_imp hc
  refine ⟨(ds.reverse.takeWhile (· = '0')).length, ?_⟩
  have hcut := List.takeWhile_append_dropWhile (p := (· = '0')) (l := ds.reverse)
  rw [List.eq_replicate_of_mem hzeros] at hcut
  unfold dropTrailingZeros
  conv_lhs => rw [← List.reverse_reverse ds, ← hcut, List.reverse_append, List.reverse_replicate]

/-! ### Reading a text -/

/-- The text begins with a digit, and a number of this value is read. -/
structure Spells (s : List Char) (v : ℚ) : Prop where
  head : ∀ c ∈ s.head?, isDecimal c = true
  read : ∃ n, Numeral.ofChars? s = some n ∧ n.value.value = v

private theorem head_append {whole rest : List Char} (hne : whole ≠ []) (hwhole : ∀ c ∈ whole, isDecimal c = true) :
    ∀ c ∈ (whole ++ rest).head?, isDecimal c = true := by
  rw [List.head?_append_of_ne_nil _ hne]
  exact fun c hc => hwhole c (List.mem_of_mem_head? hc)

/-- A text with a point and without an exponent. -/
private theorem spells_pointed {whole fraction : List Char} {v : ℚ} (hne : whole ≠ [])
    (hwhole : ∀ c ∈ whole, isDecimal c = true) (hfraction : ∀ c ∈ fraction, isDecimal c = true)
    (hv : v = digitsValue (whole ++ fraction) * 10 ^ (-(fraction.length : Int))) :
    Spells (whole ++ '.' :: fraction) v where
  head := head_append hne hwhole
  read := by
    have hend : ∀ c ∈ ([] : List Char).head?, isDecimal c = false := by simp
    have hread := ofChars?_pointed (.inl hne) hwhole hfraction hend
    rw [List.append_nil] at hread
    refine ⟨⟨whole, fraction, false, []⟩, hread, ?_⟩
    have hempty : digitsValue [] = 0 := rfl
    simp [Numeral.value, Decimal.value, hempty, hv]

/-- A decimal number with its point among, before or behind the digits. -/
private theorem spells_positional {ds : List Char} (hne : ds ≠ []) (hds : ∀ c ∈ ds, isDecimal c = true)
    (point : Int) :
    Spells (positional ds point) (digitsValue ds * 10 ^ (point - ds.length)) := by
  have ten : (10 : ℚ) ≠ 0 := by norm_num
  unfold positional
  split
  · next hpoint =>
    have hwhole : ∀ c ∈ ['0'], isDecimal c = true := by simpa using by decide
    refine spells_pointed (List.cons_ne_nil _ _) hwhole ?_ ?_
    · intro c hc
      rcases List.mem_append.1 hc with hc | hc
      · exact isDecimal_zeros _ c hc
      · exact hds c hc
    · have hzero : digitsValue ['0'] = 0 := by decide
      rw [digitsValue_append, hzero, digitsValue_append, digitsValue_zeros, List.length_append, List.length_replicate]
      simp only [Nat.zero_mul, Nat.zero_add]
      congr 2
      omega
  split
  · next hlt =>
    refine spells_pointed ?_ (fun c hc => hds c (List.mem_of_mem_take hc))
      (fun c hc => hds c (List.mem_of_mem_drop hc)) ?_
    · rw [Ne, List.take_eq_nil_iff]
      rintro (hzero | hnil)
      · omega
      · exact hne hnil
    · rw [List.take_append_drop, List.length_drop]
      congr 2
      omega
  · next hge =>
    have hfraction : ∀ c ∈ ['0'], isDecimal c = true := by simpa using by decide
    refine spells_pointed (by simp [hne]) ?_ hfraction ?_
    · intro c hc
      rcases List.mem_append.1 hc with hc | hc
      · exact hds c hc
      · exact isDecimal_zeros _ c hc
    · have hzero : digitsValue ['0'] = 0 := by decide
      rw [digitsValue_append, hzero, digitsValue_append, digitsValue_zeros, List.length_replicate,
        List.length_singleton]
      push_cast
      have hpow : point - ds.length = ((point.toNat - ds.length : Nat) : Int) := by omega
      rw [hpow, zpow_natCast, zpow_neg]
      field_simp
      simp

/-- The exponent as it is written. -/
def exponentChars (e : Int) : List Char :=
  (digitChars e.natAbs).leftpad 2 '0'

private theorem isDecimal_exponentChars (e : Int) : ∀ c ∈ exponentChars e, isDecimal c = true := by
  intro c hc
  rcases List.mem_append.1 hc with hc | hc
  · exact isDecimal_zeros _ c hc
  · exact isDecimal_digitChars _ c hc

private theorem exponentChars_ne_nil (e : Int) : exponentChars e ≠ [] :=
  List.append_ne_nil_of_right_ne_nil _ (digitChars_ne_nil _)

private theorem digitsValue_exponentChars (e : Int) : digitsValue (exponentChars e) = e.natAbs := by
  unfold exponentChars List.leftpad
  rw [digitsValue_append, digitsValue_zeros, digitsValue_digitChars, Nat.zero_mul, Nat.zero_add]

private theorem exponent?_exponentChars (e : Int) :
    Numeral.exponent? ('e' :: (if e < 0 then '-' else '+') :: exponentChars e) =
      some (decide (e < 0), exponentChars e) := by
  have hall : (exponentChars e).all isDecimal = true := List.all_eq_true.2 (isDecimal_exponentChars e)
  unfold Numeral.exponent?
  by_cases he : e < 0
  · simp [he, splitSign, hall, exponentChars_ne_nil]
  · simp [he, splitSign, hall, exponentChars_ne_nil]

/-- A decimal number with one digit before the point and an exponent. -/
private theorem spells_scientific {ds : List Char} (hne : ds ≠ []) (hds : ∀ c ∈ ds, isDecimal c = true) (e : Int) :
    Spells (scientific ds e) (digitsValue ds * 10 ^ (e + 1 - ds.length)) := by
  have hsigned : (if decide (e < 0) then -((digitsValue (exponentChars e) : Nat) : Int)
      else digitsValue (exponentChars e)) = e := by
    rw [digitsValue_exponentChars]
    simp only [decide_eq_true_eq]
    omega
  obtain ⟨d, rest, rfl⟩ := List.exists_cons_of_ne_nil hne
  have hfirst : isDecimal d = true := hds d List.mem_cons_self
  have hwhole : ∀ c ∈ [d], isDecimal c = true := by simpa using hfirst
  have hexponent := exponent?_exponentChars e
  refine ⟨?_, ⟨[d], rest, decide (e < 0), exponentChars e⟩, ?_, ?_⟩
  · intro c hc
    cases rest with
    | nil => cases hc; exact hfirst
    | cons f rest => cases hc; exact hfirst
  · cases rest with
    | nil =>
      have htail : ∀ c ∈ ('e' :: (if e < 0 then '-' else '+') :: exponentChars e).head?,
          isDecimal c = false ∧ c ≠ '.' := by simpa using by decide
      have hread := ofChars?_plain (List.cons_ne_nil d []) hwhole htail
      rw [hexponent] at hread
      exact hread
    | cons f rest =>
      have htail : ∀ c ∈ ('e' :: (if e < 0 then '-' else '+') :: exponentChars e).head?, isDecimal c = false := by
        simpa using by decide
      have hfraction : ∀ c ∈ f :: rest, isDecimal c = true := fun c hc => hds c (List.mem_cons_of_mem d hc)
      have hread := ofChars?_pointed (.inl (List.cons_ne_nil d [])) hwhole hfraction htail
      rw [hexponent] at hread
      exact hread
  · have hpoint : e - rest.length = e + 1 - (d :: rest).length := by
      rw [List.length_cons]
      omega
    unfold Numeral.value Decimal.value
    dsimp only
    rw [hsigned, hpoint]
    rfl

/-- The text of a decimal number spells it. -/
private theorem spells_chars {d : Decimal} (hd : d.digits ≠ 0) : Spells d.chars d.value := by
  have ten : (10 : ℚ) ≠ 0 := by norm_num
  obtain ⟨k, hk⟩ := exists_dropTrailingZeros (digitChars d.digits)
  have hdigits : d.digits = digitsValue (dropTrailingZeros (digitChars d.digits)) * 10 ^ k := by
    conv_lhs => rw [← digitsValue_digitChars d.digits, hk]
    rw [digitsValue_append, digitsValue_zeros, List.length_replicate, Nat.add_zero]
  have hlength : (digitChars d.digits).length = (dropTrailingZeros (digitChars d.digits)).length + k := by
    conv_lhs => rw [hk]
    rw [List.length_append, List.length_replicate]
  have hds : ∀ c ∈ dropTrailingZeros (digitChars d.digits), isDecimal c = true := by
    intro c hc
    refine isDecimal_digitChars d.digits c ?_
    rw [hk]
    exact List.mem_append_left _ hc
  have hne : dropTrailingZeros (digitChars d.digits) ≠ [] := by
    intro hnil
    rw [hnil] at hdigits
    exact hd (hdigits.trans (Nat.zero_mul _))
  unfold Decimal.chars
  dsimp only
  generalize dropTrailingZeros (digitChars d.digits) = ds at *
  generalize (digitChars d.digits).length = n at *
  have hvalue : d.value = digitsValue ds * 10 ^ (d.exponent + n - ds.length) := by
    have hpow : d.exponent + n - ds.length = k + d.exponent := by omega
    rw [Decimal.value, hdigits, hpow, zpow_add₀ ten]
    push_cast
    rw [zpow_natCast, mul_assoc]
  rw [hvalue]
  split
  · exact spells_positional hne hds _
  · have hscientific := spells_scientific hne hds (d.exponent + n - 1)
    rwa [Int.sub_add_cancel] at hscientific

/-! ### The shortest decimal number -/

private theorem magnitudeBits_of_onGrid? {num den bits : Nat} {e : Int} {d : Decimal}
    (h : onGrid? num den bits e = some d) :
    d.magnitudeBits = bits := by
  unfold onGrid? at h
  dsimp only at h
  -- whichever multiple comes first
  split at h
  all_goals
    split at h
    · next hnear =>
      cases h
      exact hnear
    split at h
    · next hfar =>
      cases h
      exact hfar
    · cases h

/-- The decimal number that is shown rounds to the double it was made from. -/
private theorem magnitudeBits_shortest {m : Nat} {q : Int} (h : IsDouble m q) :
    (shortest m q).magnitudeBits = (q + 1074).toNat * exponentUnit + m := by
  obtain ⟨hden, hval⟩ := unscale_value m (by decide : 0 < 2) Nat.one_pos (-q)
  have hexact : nearestBits (ratio m q).1 (ratio m q).2 = (q + 1074).toNat * exponentUnit + m := by
    refine nearestBits_exact hden h (hval.trans ?_)
    rw [Nat.cast_one, div_one, zpow_neg, div_inv_eq_mul, Nat.cast_ofNat]
  unfold shortest
  dsimp only
  rw [hexact]
  cases hfind : (List.range 17).findSome? fun n : Nat =>
      onGrid? (ratio m q).1 (ratio m q).2 ((q + 1074).toNat * exponentUnit + m)
        (decimalExponent (ratio m q).1 (ratio m q).2 - n) with
  | none => exact magnitudeBits_exactDecimal h
  | some d =>
    obtain ⟨n, -, hn⟩ := List.exists_of_findSome?_eq_some hfind
    exact magnitudeBits_of_onGrid? hn

/-! ### The text of a double -/

/-- The text is recognised as a numeral, and this double is read. -/
structure ReadsAs (s : String) (y : Float) : Prop where
  recognised : isNumeral s = true
  read : read? s = some y

private theorem Spells.readsAs {s : List Char} {d : Decimal} (h : Spells s d.value) (negative : Bool) :
    ReadsAs (String.ofList (signChars negative ++ s)) (ofMagnitude negative d.magnitudeBits) := by
  obtain ⟨n, hn, hvalue⟩ := h.read
  constructor
  · unfold isNumeral
    rw [String.toList_ofList, splitSign_signChars negative h.head]
    dsimp only
    rw [hn]
    rfl
  · unfold read?
    rw [String.toList_ofList, splitSign_signChars negative h.head]
    dsimp only
    rw [hn, ← Decimal.magnitudeBits_congr hvalue]
    rfl

private theorem spells_digitChars (n : Nat) : Spells (digitChars n) (Decimal.value ⟨n, 0⟩) where
  head c hc := isDecimal_digitChars n c (List.mem_of_mem_head? hc)
  read := by
    have hend : ∀ c ∈ ([] : List Char).head?, isDecimal c = false ∧ c ≠ '.' := by simp
    have hread := ofChars?_plain (digitChars_ne_nil n) (isDecimal_digitChars n) hend
    rw [List.append_nil] at hread
    refine ⟨⟨digitChars n, [], false, []⟩, hread, ?_⟩
    have hempty : digitsValue [] = 0 := rfl
    simp [Numeral.value, Decimal.value, digitsValue_digitChars, hempty]

/-- The integer part of `m * 2 ^ q` is all of it if nothing remains. -/
private theorem ratio_value_of_mod {m : Nat} {q : Int} (h : (ratio m q).1 % (ratio m q).2 = 0) :
    (((ratio m q).1 / (ratio m q).2 : Nat) : ℚ) = m * 2 ^ q := by
  obtain ⟨hden, hval⟩ := unscale_value m (by decide : 0 < 2) Nat.one_pos (-q)
  rw [Nat.cast_div (Nat.dvd_of_mod_eq_zero h) (by exact_mod_cast Nat.ne_of_gt hden)]
  refine hval.trans ?_
  rw [Nat.cast_one, div_one, zpow_neg, div_inv_eq_mul, Nat.cast_ofNat]

/-- A finite number is shown as a whole number, or else it is not zero and is shown in its shortest form. -/
private theorem text_of_finite {x : Float} {negative : Bool} {m : Nat} {q : Int}
    (h : parts x = .finite negative m q) :
    (∃ n : Nat, (n : ℚ) = m * 2 ^ q ∧ text x = String.ofList (signChars (negative && n ≠ 0) ++ digitChars n)) ∨
      m ≠ 0 ∧ text x = String.ofList (signChars negative ++ (shortest m q).chars) := by
  unfold text truncate? isIntegral shortestText
  rw [h]
  dsimp only
  have habs : (if negative then -(((ratio m q).1 / (ratio m q).2 : Nat) : Int)
      else (((ratio m q).1 / (ratio m q).2 : Nat) : Int)).natAbs = (ratio m q).1 / (ratio m q).2 := by
    split
    · rw [Int.natAbs_neg, Int.natAbs_natCast]
    · rw [Int.natAbs_natCast]
  rw [habs]
  split
  · next hwhole =>
    have hmod := of_decide_eq_true (Bool.and_eq_true_iff.1 hwhole).1
    refine .inl ⟨(ratio m q).1 / (ratio m q).2, ratio_value_of_mod hmod, ?_⟩
    generalize (ratio m q).1 / (ratio m q).2 = n
    congr 3
    cases negative
    · simp
    · simp [Nat.pos_iff_ne_zero]
  · next hwhole =>
    have hm : m ≠ 0 := by
      rintro rfl
      have hnum : (ratio 0 q).1 = 0 := by
        unfold ratio unscale
        split <;> simp
      rw [hnum] at hwhole
      simp at hwhole
    rw [if_neg hm]
    exact .inr ⟨hm, rfl⟩

/-- The sign of a zero is not shown, so what is read has none. -/
private theorem readsAs_text_of_zero {x : Float} {negative : Bool} {q : Int} (hx : parts x = .finite negative 0 q) :
    ReadsAs (text x) (ofMagnitude false 0) := by
  obtain ⟨n, hn, htext⟩ | ⟨hm, -⟩ := text_of_finite hx
  · obtain rfl : n = 0 := by
      rw [Nat.cast_zero, zero_mul] at hn
      exact_mod_cast hn
    have hreads := (spells_digitChars 0).readsAs false
    rw [Decimal.magnitudeBits, if_pos rfl] at hreads
    rw [htext]
    simpa using hreads
  · exact absurd rfl hm

/-- Any other finite number is read back. -/
private theorem readsAs_text_of_double {x : Float} {negative : Bool} {m : Nat} {q : Int}
    (hx : parts x = .finite negative m q)
    (hdouble : IsDouble m q) : ReadsAs (text x) x := by
  have hbits : ofMagnitude negative ((q + 1074).toNat * exponentUnit + m) = x :=
    ofMagnitude_toBits (toBits_of_finite hx).1
  obtain ⟨n, hn, htext⟩ | ⟨hm, htext⟩ := text_of_finite hx
  · -- a whole number is shown digit by digit
    have hn0 : n ≠ 0 := by
      rintro rfl
      have hpos : (0 : ℚ) < m * 2 ^ q := mul_pos (by exact_mod_cast hdouble.pos) (by positivity)
      rw [← hn, Nat.cast_zero] at hpos
      exact lt_irrefl _ hpos
    have hvalue : Decimal.value ⟨n, 0⟩ = (exactDecimal m q).value := by
      rw [Decimal.value, zpow_zero, mul_one, Decimal.value, (exactDecimal_value hdouble.pos q).2.2]
      exact hn
    have hreads := (spells_digitChars n).readsAs negative
    rw [Decimal.magnitudeBits_congr hvalue, magnitudeBits_exactDecimal hdouble, hbits] at hreads
    rw [htext]
    simpa [hn0] using hreads
  · have hdigits : (shortest m q).digits ≠ 0 := by
      intro h0
      have hshortest := magnitudeBits_shortest hdouble
      rw [Decimal.magnitudeBits, if_pos h0] at hshortest
      have hpos := hdouble.pos
      omega
    have hreads := (spells_chars hdigits).readsAs negative
    rw [magnitudeBits_shortest hdouble, hbits] at hreads
    exact htext ▸ hreads

/-- What is read from the text of a double is the double, but a negative zero is read as zero. -/
private theorem exists_readsAs_text (x : Float) : ∃ y, ReadsAs (text x) y ∧ (y = x ∨ x = -0.0 ∧ y = 0) := by
  cases hx : parts x with
  | nan =>
    have htext : text x = "nan" := by
      unfold text truncate? shortestText
      rw [hx]
    refine ⟨notANumber, ?_, .inl (eq_notANumber hx).symm⟩
    rw [htext]
    exact ⟨by decide +kernel, by decide +kernel⟩
  | infinite negative =>
    have htext : text x = String.ofList (signChars negative ++ ['i', 'n', 'f']) := by
      unfold text truncate? shortestText
      rw [hx]
    refine ⟨ofMagnitude negative infinityBits, ?_, .inl (ofMagnitude_toBits (toBits_of_infinite hx))⟩
    rw [htext]
    cases negative
    · exact ⟨by decide +kernel, by decide +kernel⟩
    · exact ⟨by decide +kernel, by decide +kernel⟩
  | finite negative m q =>
    obtain ⟨hbits, ⟨rfl, rfl⟩ | hdouble⟩ := toBits_of_finite hx
    · refine ⟨ofMagnitude false 0, readsAs_text_of_zero hx, ?_⟩
      have hzero : ofMagnitude negative 0 = x := ofMagnitude_toBits hbits
      cases negative with
      | false => exact .inl hzero
      | true => exact .inr ⟨hzero.symm.trans (by decide +kernel), by decide +kernel⟩
    · exact ⟨x, readsAs_text_of_double hx hdouble, .inl rfl⟩

/-- A double that is a number is equal to itself. -/
private theorem beq_self {x : Float} (h : x.isNaN = false) : (x == x) = true := by
  change Float.Model.UnpackedFloat.isNaN x.toModel.unpack = false at h
  change Float.Model.UnpackedFloat.beq x.toModel.unpack x.toModel.unpack = true
  generalize x.toModel.unpack = u at h ⊢
  unfold Float.Model.UnpackedFloat.beq Float.Model.UnpackedFloat.compare
  cases u with
  | notANumber => cases h
  | infinity s => cases s <;> rfl
  | zero s => rfl
  | finite s m e hm => cases s <;> simp

/-- **The text of a number reads back.**  From the text that `print` shows, and that joining with a string gives,
`Int` makes a number: the same one, but zero of negative zero. -/
theorem text_reads_back (x : Float) : ∃ y : Float, (y = x ∨ x = -0.0 ∧ y = 0) ∧
    (if x.isNaN then y.isNaN = true else (y == x) = true) ∧
    (Run.text (.number x) >>= fun t => Run.native .int [.string t]) = pure (.number y) ∧
    ∀ pos, (Run.add (.string "") (.number x) pos >>= fun v => Run.native .int [v]) = pure (.number y) := by
  obtain ⟨y, hreads, hy⟩ := exists_readsAs_text x
  have hint : Run.native .int [.string (text x)] = pure (.number y) := by
    unfold Run.native Run.int
    dsimp only
    rw [if_pos hreads.recognised, hreads.read]
  have hshown : Run.text (.number x) = pure (text x) := by
    funext m
    unfold Run.text Store.text? Store.textUpTo
    rfl
  have hjoined : ∀ pos, Run.add (.string "") (.number x) pos = pure (.string (text x)) := by
    intro pos
    change (pure (.string ("" ++ text x)) : Run Value) = _
    rw [String.empty_append]
  refine ⟨y, hy, ?_, ?_, fun pos => ?_⟩
  · rcases hy with rfl | ⟨rfl, rfl⟩
    · split
      · next hnan => exact hnan
      · next hnan => exact beq_self (Bool.eq_false_iff.2 hnan)
    · decide +kernel
  · rw [hshown, pure_bind, hint]
  · rw [hjoined, pure_bind, hint]

end ObjScript.Number
