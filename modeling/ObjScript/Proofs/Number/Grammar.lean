import ObjScript.Eval.Interpreter
import ObjScript.Proofs.Number.Spelling

/-!
# The grammar of numerals

A numeral is a sign, or none, and then a decimal with an exponent or one of three names (`IsNumeral`).  The recogniser
of decimals takes as many digits as it finds, so that where a part ends is seen from what comes next
(`ofChars?_isSome_iff`); names are told apart from decimals and signs by their letters.

A text in which nothing but a plain `i` counts as an `i` is recognised if and only if the grammar has it
(`isNumeral_iff`), and then it has a value: `Int` gives a number for the texts of the grammar, null for all others,
and never fails (`int_accepts_numerals`).
-/

namespace ObjScript.Number

open ObjScript.Text (isDecimal)

/-! ### The grammar -/

/-- Decimal digits of any script, perhaps none. -/
def AreDigits (ds : List Char) : Prop :=
  ∀ c ∈ ds, isDecimal c = true

/-- A sign, or none. -/
inductive IsSign : List Char → Prop where
  | absent : IsSign []
  | plus : IsSign ['+']
  | minus : IsSign ['-']

/-- Digits with or without a point, one digit at least. -/
inductive IsMantissa : List Char → Prop where
  | whole {ds : List Char} (hne : ds ≠ []) (hds : AreDigits ds) : IsMantissa ds
  | pointed {ds fs : List Char} (hne : ds ≠ []) (hds : AreDigits ds) (hfs : AreDigits fs) :
      IsMantissa (ds ++ '.' :: fs)
  | fraction {fs : List Char} (hne : fs ≠ []) (hfs : AreDigits fs) : IsMantissa ('.' :: fs)

/-- An exponent, or none. -/
inductive IsExponent : List Char → Prop where
  | absent : IsExponent []
  | present {mark : Char} {sign ds : List Char} (hmark : mark = 'e' ∨ mark = 'E') (hsign : IsSign sign)
    (hne : ds ≠ [])
      (hds : AreDigits ds) : IsExponent (mark :: (sign ++ ds))

/-- The names of infinity and of what is not a number, in any letter case. -/
def IsNamed (s : List Char) : Prop :=
  s.map Char.toLower ∈ [['i', 'n', 'f'], ['i', 'n', 'f', 'i', 'n', 'i', 't', 'y'], ['n', 'a', 'n']]

/-- The texts that stand for numbers. -/
inductive IsNumeral : List Char → Prop where
  | decimal {sign mantissa exponent : List Char} (hsign : IsSign sign) (hmantissa : IsMantissa mantissa)
      (hexponent : IsExponent exponent) : IsNumeral (sign ++ (mantissa ++ exponent))
  | named {sign name : List Char} (hsign : IsSign sign) (hname : IsNamed name) : IsNumeral (sign ++ name)

/-! ### Signs -/

/-- The text does not begin with a sign. -/
def Unsigned (s : List Char) : Prop :=
  ∀ c ∈ s.head?, c ≠ '+' ∧ c ≠ '-'

private theorem unsigned_cons {c : Char} {rest : List Char} : Unsigned (c :: rest) ↔ c ≠ '+' ∧ c ≠ '-' := by
  simp [Unsigned]

/-- What is split off is a sign. -/
private theorem exists_sign (s : List Char) : ∃ sign, IsSign sign ∧ s = sign ++ (splitSign s).2 := by
  unfold splitSign
  split
  · exact ⟨['-'], .minus, rfl⟩
  · exact ⟨['+'], .plus, rfl⟩
  · exact ⟨[], .absent, rfl⟩

/-- A sign is split off, and nothing else. -/
private theorem splitSign_sign {sign body : List Char} (hsign : IsSign sign) (hbody : Unsigned body) :
    (splitSign (sign ++ body)).2 = body := by
  cases hsign with
  | plus => rfl
  | minus => rfl
  | absent =>
    cases body with
    | nil => rfl
    | cons c rest =>
      obtain ⟨hplus, hminus⟩ := unsigned_cons.1 hbody
      unfold splitSign
      simp [hplus, hminus]

private theorem isDecimal_ne {c d : Char} (hc : isDecimal c = true) (hd : isDecimal d = false) : c ≠ d := by
  rintro rfl
  rw [hc] at hd
  cases hd

private theorem AreDigits.unsigned {ds : List Char} (hds : AreDigits ds) (hne : ds ≠ []) (rest : List Char) :
    Unsigned (ds ++ rest) := by
  cases ds with
  | nil => exact absurd rfl hne
  | cons c ds =>
    have hc := hds c List.mem_cons_self
    exact unsigned_cons.2 ⟨isDecimal_ne hc (by decide), isDecimal_ne hc (by decide)⟩

private theorem IsMantissa.unsigned {s : List Char} (h : IsMantissa s) (rest : List Char) : Unsigned (s ++ rest) := by
  cases h with
  | whole hne hds => exact hds.unsigned hne rest
  | pointed hne hds _ => exact List.append_assoc _ _ rest ▸ hds.unsigned hne _
  | fraction _ _ => exact unsigned_cons.2 ⟨by decide, by decide⟩

private theorem IsNamed.unsigned {s : List Char} (h : IsNamed s) : Unsigned s := by
  cases s with
  | nil => exact fun c hc => nomatch hc
  | cons c rest =>
    have hletter : c.toLower = 'i' ∨ c.toLower = 'n' := by
      simp only [IsNamed, List.map_cons, List.mem_cons, List.cons.injEq, List.not_mem_nil, or_false] at h
      rcases h with h | h | h
      · exact .inl h.1
      · exact .inl h.1
      · exact .inr h.1
    refine unsigned_cons.2 ⟨?_, ?_⟩
    · rintro rfl
      revert hletter
      decide
    · rintro rfl
      revert hletter
      decide

/-! ### Decimals -/

/-- The exponent is recognised. -/
private theorem exponent?_isSome_iff {s : List Char} : (Numeral.exponent? s).isSome ↔ IsExponent s := by
  constructor
  · intro h
    cases s with
    | nil => exact .absent
    | cons mark rest =>
      obtain ⟨sign, hsign, hrest⟩ := exists_sign rest
      have hcond : ((mark = 'e' ∨ mark = 'E') ∧ (splitSign rest).2 ≠ []) ∧ AreDigits (splitSign rest).2 := by
        simpa [Numeral.exponent?, AreDigits] using h
      rw [hrest]
      exact .present hcond.1.1 hsign hcond.1.2 hcond.2
  · intro h
    cases h with
    | absent => rfl
    | @present mark sign ds hmark hsign hne hds =>
      have hunsigned := hds.unsigned hne []
      rw [List.append_nil] at hunsigned
      have hsplit := splitSign_sign hsign hunsigned
      have hall : ∀ c ∈ ds, isDecimal c = true := hds
      simpa [Numeral.exponent?, hsplit, hmark, hne] using hall

/-- An exponent begins neither with a digit nor with a point. -/
private theorem IsExponent.head {s : List Char} (h : IsExponent s) :
    ∀ c ∈ s.head?, isDecimal c = false ∧ c ≠ '.' := by
  cases h with
  | absent => exact fun c hc => nomatch hc
  | present hmark _ _ _ =>
    intro c hc
    obtain rfl := Option.some.inj hc
    rcases hmark with rfl | rfl
    · decide
    · decide

/-- The digits at the beginning of a text, and what comes then. -/
private theorem exists_digits (s : List Char) :
    ∃ ds rest, s = ds ++ rest ∧ AreDigits ds ∧ ∀ c ∈ rest.head?, isDecimal c = false := by
  refine ⟨s.takeWhile isDecimal, s.dropWhile isDecimal, List.takeWhile_append_dropWhile.symm,
    fun c hc => List.mem_takeWhile_imp hc, fun c hc => ?_⟩
  have hnot := List.head?_dropWhile_not isDecimal s
  rw [Option.mem_def.1 hc] at hnot
  simpa using hnot

/-- A decimal has a mantissa and an exponent. -/
private theorem exists_of_ofChars? {s : List Char} (h : (Numeral.ofChars? s).isSome) :
    ∃ mantissa exponent, s = mantissa ++ exponent ∧ IsMantissa mantissa ∧ IsExponent exponent := by
  obtain ⟨ds, rest, rfl, hds, hrest⟩ := exists_digits s
  by_cases hpoint : ∃ after, rest = '.' :: after
  · obtain ⟨after, rfl⟩ := hpoint
    obtain ⟨fs, tail, rfl, hfs, htail⟩ := exists_digits after
    by_cases hne : ds ≠ [] ∨ fs ≠ []
    · rw [ofChars?_pointed hne hds hfs htail, Option.isSome_map] at h
      refine ⟨ds ++ '.' :: fs, tail, by simp, ?_, exponent?_isSome_iff.1 h⟩
      by_cases hwhole : ds = []
      · subst hwhole
        exact .fraction (hne.resolve_left (absurd rfl)) hfs
      · exact .pointed hwhole hds hfs
    · obtain ⟨rfl, rfl⟩ : ds = [] ∧ fs = [] := by simpa using hne
      -- a point alone is no number
      obtain ⟨htake, -⟩ := takeWhile_digits (List.forall_mem_nil _) htail
      rw [List.nil_append] at htake
      have hpoint : isDecimal '.' = false := by decide
      simp [Numeral.ofChars?, htake, hpoint] at h
  · by_cases hne : ds = []
    · subst hne
      obtain ⟨htake, hdrop⟩ := takeWhile_digits (List.forall_mem_nil _) hrest
      rw [List.nil_append] at htake hdrop
      cases rest with
      | nil => cases h
      | cons c rest =>
        have hc : c ≠ '.' := fun hc => hpoint ⟨rest, hc ▸ rfl⟩
        simp [Numeral.ofChars?, htake, hdrop, hc] at h
    · have htail : ∀ c ∈ rest.head?, isDecimal c = false ∧ c ≠ '.' := by
        intro c hc
        refine ⟨hrest c hc, ?_⟩
        rintro rfl
        exact hpoint ⟨rest.tail, (List.cons_head?_tail hc).symm⟩
      rw [ofChars?_plain hne hds htail, Option.isSome_map] at h
      exact ⟨ds, rest, rfl, .whole hne hds, exponent?_isSome_iff.1 h⟩

/-- A mantissa with an exponent is a decimal. -/
private theorem ofChars?_isSome {mantissa exponent : List Char} (hmantissa : IsMantissa mantissa)
    (hexponent : IsExponent exponent) : (Numeral.ofChars? (mantissa ++ exponent)).isSome := by
  have hsome := exponent?_isSome_iff.2 hexponent
  have htail : ∀ c ∈ exponent.head?, isDecimal c = false := fun c hc => (hexponent.head c hc).1
  cases hmantissa with
  | whole hne hds =>
    rw [ofChars?_plain hne hds hexponent.head, Option.isSome_map]
    exact hsome
  | @pointed ds fs hne hds hfs =>
    rw [List.append_assoc, List.cons_append, ofChars?_pointed (.inl hne) hds hfs htail, Option.isSome_map]
    exact hsome
  | @fraction fs hne hfs =>
    have hpointed := ofChars?_pointed (.inr hne) (List.forall_mem_nil _) hfs htail
    rw [List.nil_append] at hpointed
    rw [List.cons_append, hpointed, Option.isSome_map]
    exact hsome

/-- The decimals are the texts with a mantissa and an exponent. -/
private theorem ofChars?_isSome_iff {s : List Char} :
    (Numeral.ofChars? s).isSome ↔ ∃ mantissa exponent, s = mantissa ++ exponent ∧ IsMantissa mantissa ∧
      IsExponent exponent := by
  refine ⟨exists_of_ofChars?, ?_⟩
  rintro ⟨mantissa, exponent, rfl, hmantissa, hexponent⟩
  exact ofChars?_isSome hmantissa hexponent

/-! ### Names -/

private theorem named?_isSome_iff {fold : Char → Char} {s : List Char} (hfold : s.map fold = s.map Char.toLower) :
    (named? fold s).isSome ↔ IsNamed s := by
  have hof : ∀ l : List Char, (String.ofList (s.map Char.toLower) = String.ofList l) = (s.map Char.toLower = l) :=
    fun l => propext String.ofList_inj
  have hinf : "inf" = String.ofList ['i', 'n', 'f'] := rfl
  have hinfinity : "infinity" = String.ofList ['i', 'n', 'f', 'i', 'n', 'i', 't', 'y'] := rfl
  have hnan : "nan" = String.ofList ['n', 'a', 'n'] := rfl
  unfold named? IsNamed
  simp only [hfold, hinf, hinfinity, hnan, hof, List.mem_cons, List.not_mem_nil, or_false]
  split
  · next h =>
    rw [Bool.or_eq_true, decide_eq_true_eq, decide_eq_true_eq] at h
    exact iff_of_true rfl (h.imp_right .inl)
  · next h =>
    rw [Bool.or_eq_true, decide_eq_true_eq, decide_eq_true_eq] at h
    split
    · next hname => exact iff_of_true rfl (.inr (.inr hname))
    · next hname => exact iff_of_false nofun fun hnamed => hname ((or_assoc.2 hnamed).resolve_left h)

/-! ### Numerals -/

section Recognised

variable {s : String} (h : ∀ c ∈ s.toList, c ≠ 'ı' ∧ c ≠ 'İ')

include h

/-- In the text only the plain letter counts as an `i`. -/
private theorem map_foldDots {l : List Char} (hl : l ⊆ s.toList) : l.map foldDots = l.map Char.toLower := by
  refine List.map_congr_left fun c hc => ?_
  obtain ⟨hdotless, hdotted⟩ := h c (hl hc)
  simp [foldDots, foldCase, hdotless, hdotted]

/-- The grammar has exactly the texts that are recognised. -/
private theorem isNumeral_iff : isNumeral s = true ↔ IsNumeral s.toList := by
  unfold isNumeral
  rw [Bool.or_eq_true, ofChars?_isSome_iff]
  constructor
  · intro hbody
    obtain ⟨sign, hsign, hs⟩ := exists_sign s.toList
    generalize (splitSign s.toList).2 = body at hs hbody
    rcases hbody with ⟨mantissa, exponent, rfl, hmantissa, hexponent⟩ | hnamed
    · rw [hs]
      exact .decimal hsign hmantissa hexponent
    · have hfold : body.map foldDots = body.map Char.toLower :=
        map_foldDots h (hs ▸ List.subset_append_right sign body)
      rw [hs]
      exact .named hsign ((named?_isSome_iff hfold).1 hnamed)
  · intro hnumeral
    generalize hs : s.toList = l at hnumeral
    cases hnumeral with
    | @decimal sign mantissa exponent hsign hmantissa hexponent =>
      rw [splitSign_sign hsign (hmantissa.unsigned exponent)]
      exact .inl ⟨mantissa, exponent, rfl, hmantissa, hexponent⟩
    | @named sign name hsign hname =>
      have hfold : name.map foldDots = name.map Char.toLower :=
        map_foldDots h (hs ▸ List.subset_append_right sign name)
      rw [splitSign_sign hsign hname.unsigned]
      exact .inr ((named?_isSome_iff hfold).2 hname)

/-- What is recognised has a value. -/
private theorem exists_read?_of_isNumeral (hs : isNumeral s = true) : ∃ x, read? s = some x := by
  have hsub : (splitSign s.toList).2 ⊆ s.toList := by
    obtain ⟨sign, -, hsplit⟩ := exists_sign s.toList
    exact fun c hc => hsplit ▸ List.mem_append_right sign hc
  unfold isNumeral at hs
  unfold read?
  generalize splitSign s.toList = split at hsub hs
  obtain ⟨negative, body⟩ := split
  dsimp only at hsub hs ⊢
  cases hdecimal : Numeral.ofChars? body with
  | some n => exact ⟨n.value.toFloat negative, rfl⟩
  | none =>
    rw [hdecimal, Option.isSome_none, Bool.false_or, named?_isSome_iff (map_foldDots h hsub)] at hs
    have hfold : body.map foldCase = body.map Char.toLower := rfl
    obtain ⟨value, hvalue⟩ := Option.isSome_iff_exists.1 ((named?_isSome_iff hfold).2 hs)
    exact ⟨value negative, congrArg (Option.map (· negative)) hvalue⟩

end Recognised

/-- **`Int` accepts exactly its grammar.**  Called on a text of plain characters and decimal digits of any script,
`Int` gives the value of the text if it is a numeral and null if it is none.  It never fails on it, since whatever is
recognised has a value. -/
theorem int_accepts_numerals (i : Interp) (s : String) (more : List Value)
    (h : ∀ c ∈ s.toList, c.toNat < 128 ∨ isDecimal c = true) :
    (IsNumeral s.toList → ∃ x, read? s = some x ∧
      Run.call i (.native .int) (.string s :: more) = pure (.number x)) ∧
    (¬ IsNumeral s.toList → Run.call i (.native .int) (.string s :: more) = pure .null) ∧
    (isNumeral s = true → (read? s).isSome) := by
  have hplain : ∀ c ∈ s.toList, c ≠ 'ı' ∧ c ≠ 'İ' := by
    intro c hc
    constructor
    · rintro rfl
      exact absurd (h _ hc) (by decide)
    · rintro rfl
      exact absurd (h _ hc) (by decide)
  have hcall : Run.call i (.native .int) (.string s :: more) = Run.int (.string s :: more) := rfl
  refine ⟨fun hs => ?_, fun hs => ?_, fun hs => ?_⟩
  · have hrecognised := (isNumeral_iff hplain).2 hs
    obtain ⟨x, hx⟩ := exists_read?_of_isNumeral hplain hrecognised
    refine ⟨x, hx, ?_⟩
    rw [hcall, Run.int, if_pos hrecognised, hx]
  · rw [← isNumeral_iff hplain] at hs
    rw [hcall, Run.int, if_neg hs]
  · obtain ⟨x, hx⟩ := exists_read?_of_isNumeral hplain hs
    rw [hx]
    rfl

/-- Digits of three scripts, with nothing before the point. -/
theorem int_accepts_numerals_of_mixed_scripts :
    (∀ c ∈ "-.1٢𝟛E+٠4".toList, c.toNat < 128 ∨ isDecimal c = true) ∧ IsNumeral "-.1٢𝟛E+٠4".toList ∧
      ∃ x, read? "-.1٢𝟛E+٠4" = some x ∧
        Run.call (interp 0) (.native .int) [.string "-.1٢𝟛E+٠4"] = pure (.number x) := by
  have hchars : "-.1٢𝟛E+٠4".toList = ['-', '.', '1', '٢', '𝟛', 'E', '+', '٠', '4'] := String.toList_ofList
  have h : ∀ c ∈ "-.1٢𝟛E+٠4".toList, c.toNat < 128 ∨ isDecimal c = true := by
    rw [hchars]
    simp only [List.forall_mem_cons, List.not_mem_nil, false_implies, implies_true]
    decide +kernel
  have hnumeral : IsNumeral "-.1٢𝟛E+٠4".toList := by
    rw [hchars]
    have hfraction : AreDigits ['1', '٢', '𝟛'] := List.all_eq_true.1 rfl
    have hexponent : AreDigits ['٠', '4'] := List.all_eq_true.1 rfl
    have hmantissa : IsMantissa ['.', '1', '٢', '𝟛'] := .fraction (List.cons_ne_nil _ _) hfraction
    exact .decimal .minus hmantissa (.present (.inr rfl) .plus (List.cons_ne_nil _ _) hexponent)
  exact ⟨h, hnumeral, (int_accepts_numerals (interp 0) "-.1٢𝟛E+٠4" [] h).1 hnumeral⟩

end ObjScript.Number
