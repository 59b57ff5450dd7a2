import ObjScript.Proofs.Token.Tiles

/-!
# Tokens line by line

A line feed ends every lexeme but a string without a closing quote, and as the next character it looks to the scanner
just like the end of the source.  So two sources joined by a line feed give the tokens of the first and then those of
the second, further down (`scanTokens_join`).  The lexemes themselves are not the lexemes of the two sources: blanks
around the line feed run together.  `SameTokens` compares lists of lexemes by what they give.
-/

namespace ObjScript

open ObjScript.Text

/-- A string that the end of the source cuts off: its opening quote is its only one. -/
def Lexeme.unclosed (l : Lexeme) : Bool :=
  match l.piece with
  | .token .string _ => l.raw.count doubleQuote == 1
  | _ => false

/-- The text ends inside a string literal. -/
def endsInString (source : String) : Bool :=
  (lexemes source.toList).getLast?.any Lexeme.unclosed

/-- The place some lines further down. -/
def Pos.lowered (n : Nat) (p : Pos) : Pos :=
  { p with line := p.line + n }

/-- The token some lines further down. -/
def Token.lowered (n : Nat) (t : Token) : Token :=
  { t with pos := t.pos.lowered n }

/-- The lexemes give the same tokens and the same texts set aside. -/
def SameTokens (ls ls' : List Lexeme) : Prop :=
  (∀ p, placeTokens p ls = placeTokens p ls') ∧ unhandledTexts ls = unhandledTexts ls'

/-! ### One lexeme before a line feed -/

private theorem takeWhile_break {p : Char → Bool} (hp : p '\n' = false) (cs b : List Char) :
    (cs ++ '\n' :: b).takeWhile p = cs.takeWhile p := by
  induction cs with
  | nil => simp [hp]
  | cons c cs ih =>
    rw [List.cons_append, List.takeWhile_cons, List.takeWhile_cons, ih]

private theorem dropWhile_break {p : Char → Bool} (hp : p '\n' = false) (cs b : List Char) :
    (cs ++ '\n' :: b).dropWhile p = cs.dropWhile p ++ '\n' :: b := by
  induction cs with
  | nil => simp [hp]
  | cons c cs ih =>
    rw [List.cons_append, List.dropWhile_cons, List.dropWhile_cons, ih]
    split <;> rfl

namespace Lexeme

/-- The lexeme stays the same and so does what is left of its own line, with the next line after it. -/
def UpToBreak (b : List Char) (alone joined : Lexeme × List Char) : Prop :=
  joined = (alone.1, alone.2 ++ '\n' :: b)

private theorem word_break (lead cs b : List Char) : UpToBreak b (word lead cs) (word lead (cs ++ '\n' :: b)) := by
  have hbreak : isWordChar '\n' = false := by decide +kernel
  unfold UpToBreak word
  rw [takeWhile_break hbreak, dropWhile_break hbreak]

/-- A string that is closed is closed before the line feed; the quotes of its lead are those it opens with. -/
private theorem string_break {lead cs : List Char} (b : List Char) (hlead : lead.count doubleQuote = 1)
    (hclosed : (string lead cs).2 = [] → (string lead cs).1.unclosed = false) :
    UpToBreak b (string lead cs) (string lead (cs ++ '\n' :: b)) := by
  have hbody : (cs.takeWhile (· ≠ doubleQuote)).count doubleQuote = 0 := by
    refine List.count_eq_zero.2 fun hmem => ?_
    simpa using List.mem_takeWhile_imp hmem
  cases hdrop : cs.dropWhile (· ≠ doubleQuote) with
  | nil =>
    -- the string would be cut off
    have halone : string lead cs =
        (⟨lead ++ cs.takeWhile (· ≠ doubleQuote), .token .string (String.ofList (cs.takeWhile (· ≠ doubleQuote)))⟩,
          []) := by
      unfold string
      rw [hdrop]
    rw [halone] at hclosed
    have hopen := hclosed rfl
    unfold unclosed at hopen
    rw [List.count_append, hlead, hbody] at hopen
    cases hopen
  | cons quote rest =>
    have hlong : (cs.takeWhile (· ≠ doubleQuote)).length ≠ cs.length := by
      intro hlen
      have hall := congrArg List.length (List.takeWhile_append_dropWhile (p := (· ≠ doubleQuote)) (l := cs))
      rw [List.length_append, hdrop, List.length_cons] at hall
      omega
    have htake : (cs ++ '\n' :: b).takeWhile (· ≠ doubleQuote) = cs.takeWhile (· ≠ doubleQuote) := by
      rw [List.takeWhile_append, if_neg hlong]
    have hdrop' : (cs ++ '\n' :: b).dropWhile (· ≠ doubleQuote) = quote :: (rest ++ '\n' :: b) := by
      rw [List.dropWhile_append, hdrop]
      rfl
    unfold UpToBreak string
    rw [htake, hdrop, hdrop']

private theorem atSign_break {cs : List Char} (b : List Char)
    (hclosed : (atSign cs).2 = [] → (atSign cs).1.unclosed = false) :
    UpToBreak b (atSign cs) (atSign (cs ++ '\n' :: b)) := by
  cases cs with
  | nil => rfl
  | cons c rest =>
    unfold atSign at hclosed ⊢
    rw [List.cons_append]
    dsimp only at hclosed ⊢
    split
    · next hquote =>
      subst hquote
      rw [if_pos rfl] at hclosed
      exact string_break b (by decide) hclosed
    split
    · rfl
    split
    · exact word_break ['@'] (c :: rest) b
    · rfl

private theorem directive_break (cs b : List Char) : UpToBreak b (directive cs) (directive (cs ++ '\n' :: b)) := by
  have hbreak : isLetter '\n' = false := by decide +kernel
  unfold UpToBreak directive
  rw [takeWhile_break hbreak, dropWhile_break hbreak]

private theorem underscore_break (cs b : List Char) : UpToBreak b (underscore cs) (underscore (cs ++ '\n' :: b)) := by
  cases cs with
  | nil => rfl
  | cons c rest =>
    by_cases hc : c = '_'
    · subst hc
      exact word_break ['_', '_'] rest b
    · have halone : underscore (c :: rest) = (ofSymbol ['_'] .underline, c :: rest) := by
        unfold underscore
        split
        · next h => exact absurd (List.cons.inj h).1 hc
        · rfl
      have hjoined : underscore (c :: rest ++ '\n' :: b) = (ofSymbol ['_'] .underline, c :: rest ++ '\n' :: b) := by
        unfold underscore
        split
        · next h => exact absurd (List.cons.inj h).1 hc
        · rfl
      rw [halone, hjoined]
      rfl

/-- A point at the end of a line is not part of the number. -/
private theorem number_break (c : Char) (cs b : List Char) :
    UpToBreak b (number c cs) (number c (cs ++ '\n' :: b)) := by
  have hbreak : isDigit '\n' = false := by decide +kernel
  unfold UpToBreak number
  rw [takeWhile_break hbreak, dropWhile_break hbreak]
  rcases cs.dropWhile isDigit with _ | ⟨e, _ | ⟨d, rest⟩⟩
  · rfl
  · by_cases he : e = '.'
    · subst he
      simp [hbreak]
    · simp [he]
  · by_cases he : e = '.'
    · subst he
      by_cases hd : isDigit d
      · simp [hd, takeWhile_break hbreak, dropWhile_break hbreak]
      · simp [hd]
    · simp [he]

private theorem symbol_break (c : Char) (cs b : List Char) :
    UpToBreak b (symbol c cs) (symbol c (cs ++ '\n' :: b)) := by
  cases cs with
  | nil =>
    have hnone : symbol₂? c '\n' = none := by
      unfold symbol₂?
      split <;> first | rfl | simp_all
    unfold UpToBreak symbol
    simp only [List.nil_append, hnone]
  | cons d rest =>
    unfold UpToBreak symbol
    rw [List.cons_append]
    dsimp only
    split <;> rfl

/-- What is no blank is cut out before a line feed as it is at the end of the source. -/
private theorem scan_break {c : Char} {cs : List Char} (b : List Char) (hblank : isBlank c = false)
    (hclosed : (scan c cs).2 = [] → (scan c cs).1.unclosed = false) :
    UpToBreak b (scan c cs) (scan c (cs ++ '\n' :: b)) := by
  have hslash : ((cs ++ '\n' :: b).head? = some '/') = (cs.head? = some '/') := by
    cases cs <;> simp
  unfold scan at hclosed ⊢
  simp only [hblank, Bool.false_eq_true, if_false, hslash] at hclosed ⊢
  split
  · unfold UpToBreak
    rw [takeWhile_break (by decide), dropWhile_break (by decide)]
  next hcomment =>
  rw [if_neg hcomment] at hclosed
  split
  · next hat =>
    rw [if_pos hat] at hclosed
    exact atSign_break b hclosed
  next hat =>
  rw [if_neg hat] at hclosed
  split
  · next hquote =>
    rw [if_pos hquote] at hclosed
    exact string_break b (by rw [hquote]; decide) hclosed
  split
  · exact directive_break cs b
  split
  · exact underscore_break cs b
  split
  · exact number_break c cs b
  split
  · exact word_break [] (c :: cs) b
  · exact symbol_break c cs b

end Lexeme

/-! ### Lists of lexemes -/

namespace SameTokens

variable {ls ls' ls'' : List Lexeme}

private theorem refl (ls : List Lexeme) : SameTokens ls ls :=
  ⟨fun _ => rfl, rfl⟩

private theorem trans (h : SameTokens ls ls') (h' : SameTokens ls' ls'') : SameTokens ls ls'' :=
  ⟨fun p => (h.1 p).trans (h'.1 p), h.2.trans h'.2⟩

private theorem symm (h : SameTokens ls ls') : SameTokens ls' ls :=
  ⟨fun p => (h.1 p).symm, h.2.symm⟩

private theorem cons (l : Lexeme) (h : SameTokens ls ls') : SameTokens (l :: ls) (l :: ls') := by
  constructor
  · intro p
    unfold placeTokens
    rw [h.1]
  · have htexts := h.2
    unfold unhandledTexts at htexts ⊢
    rw [List.filterMap_cons, List.filterMap_cons, htexts]

/-- A gap may be cut in two. -/
private theorem gap_append (raw raw' : List Char) (ls : List Lexeme) :
    SameTokens (⟨raw ++ raw', .gap⟩ :: ls) (⟨raw, .gap⟩ :: ⟨raw', .gap⟩ :: ls) := by
  constructor
  · intro p
    change placeTokens (p.after (raw ++ raw')) ls = placeTokens ((p.after raw).after raw') ls
    rw [Pos.after, List.foldl_append]
    rfl
  · rfl

/-- A gap of no characters may be left out. -/
private theorem gap_nil (ls : List Lexeme) : SameTokens (⟨[], .gap⟩ :: ls) ls :=
  ⟨fun _ => rfl, rfl⟩

end SameTokens

/-- A blank in front may be cut off the blanks it runs together with. -/
private theorem sameTokens_blank {c : Char} (hc : isBlank c) (cs : List Char) :
    SameTokens (lexemes (c :: cs)) (⟨[c], .gap⟩ :: lexemes cs) := by
  have hscan : ∀ {d : Char} (ds : List Char), isBlank d →
      lexemes (d :: ds) = ⟨d :: ds.takeWhile isBlank, .gap⟩ :: lexemes (ds.dropWhile isBlank) := by
    intro d ds hd
    rw [lexemes, Lexeme.scan, if_pos hd]
  rw [hscan cs hc]
  cases cs with
  | nil => exact SameTokens.refl _
  | cons d ds =>
    by_cases hd : isBlank d
    · rw [hscan ds hd, List.takeWhile_cons_of_pos hd, List.dropWhile_cons_of_pos hd]
      exact SameTokens.gap_append [c] (d :: ds.takeWhile isBlank) _
    · rw [List.takeWhile_cons_of_neg hd, List.dropWhile_cons_of_neg hd]
      exact SameTokens.refl _

/-- So may all the blanks in front. -/
private theorem sameTokens_blanks {blanks : List Char} (h : ∀ c ∈ blanks, isBlank c) (cs : List Char) :
    SameTokens (lexemes (blanks ++ cs)) (⟨blanks, .gap⟩ :: lexemes cs) := by
  induction blanks with
  | nil => exact (SameTokens.gap_nil _).symm
  | cons c blanks ih =>
    obtain ⟨hc, hblanks⟩ := List.forall_mem_cons.1 h
    have hfirst := sameTokens_blank hc (blanks ++ cs)
    exact hfirst.trans (((ih hblanks).cons _).trans (SameTokens.gap_append [c] blanks _).symm)

/-- Only the last lexeme of a text can be left open. -/
private theorem any_getLast?_cons {l : Lexeme} {ls : List Lexeme}
    (h : (l :: ls).getLast?.any Lexeme.unclosed = false) :
    (ls = [] → l.unclosed = false) ∧ ls.getLast?.any Lexeme.unclosed = false := by
  cases ls with
  | nil => exact ⟨fun _ => h, rfl⟩
  | cons l' ls => exact ⟨nofun, by rwa [List.getLast?_cons_cons] at h⟩

/-- A text and the lines after it give what they give by themselves. -/
private theorem sameTokens_join (cs b : List Char) (h : (lexemes cs).getLast?.any Lexeme.unclosed = false) :
    SameTokens (lexemes (cs ++ '\n' :: b)) (lexemes cs ++ ⟨['\n'], .gap⟩ :: lexemes b) := by
  fun_induction lexemes cs with
  | case1 => exact sameTokens_blank (by decide +kernel) b
  | case2 c cs ih =>
    obtain ⟨hfirst, hlater⟩ := any_getLast?_cons h
    have hjoin := (ih hlater).cons (Lexeme.scan c cs).1
    by_cases hc : isBlank c
    · -- the blanks in front may run on into the next line, so they are cut off first
      have hscan : Lexeme.scan c cs = (⟨c :: cs.takeWhile isBlank, .gap⟩, cs.dropWhile isBlank) := by
        rw [Lexeme.scan, if_pos hc]
      have hrun : ∀ d ∈ c :: cs.takeWhile isBlank, isBlank d :=
        List.forall_mem_cons.2 ⟨hc, fun _ hd => List.mem_takeWhile_imp hd⟩
      have hcut := sameTokens_blanks hrun (cs.dropWhile isBlank ++ '\n' :: b)
      rw [← List.append_assoc, List.cons_append, List.takeWhile_append_dropWhile] at hcut
      rw [hscan] at hjoin ⊢
      exact hcut.trans hjoin
    · have hclosed : (Lexeme.scan c cs).2 = [] → (Lexeme.scan c cs).1.unclosed = false := by
        intro hrest
        refine hfirst ?_
        rw [hrest, lexemes]
      have hbreak := Lexeme.scan_break b (by simpa using hc) hclosed
      rw [List.cons_append, lexemes, hbreak]
      exact hjoin

/-! ### Places -/

private theorem Pos.after_lowered (n : Nat) (p : Pos) (cs : List Char) :
    (p.lowered n).after cs = (p.after cs).lowered n := by
  induction cs generalizing p with
  | nil => rfl
  | cons c cs ih =>
    have hnext : (p.lowered n).next c = (p.next c).lowered n := by
      unfold Pos.next Pos.lowered
      split
      · simp only [Pos.mk.injEq, and_true]
        omega
      · rfl
    change ((p.lowered n).next c).after cs = ((p.next c).after cs).lowered n
    rw [hnext, ih]

private theorem placeTokens_lowered (n : Nat) (p : Pos) (ls : List Lexeme) :
    placeTokens (p.lowered n) ls = (placeTokens p ls).map (Token.lowered n) := by
  induction ls generalizing p with
  | nil => rfl
  | cons l ls ih =>
    unfold placeTokens
    rw [Pos.after_lowered, ih]
    cases l.piece <;> rfl

/-- Past a line feed a text is as many lines down as it has line feeds. -/
private theorem Pos.past_break (cs : List Char) :
    Pos.past (cs ++ ['\n']) = Pos.start.lowered (1 + cs.count '\n') := by
  simp [Pos.past, Pos.lowered, Pos.start]
  omega

/-- The end token of the first lexemes gives way to the tokens of the others. -/
private theorem placeTokens_append (p : Pos) (ls : List Lexeme) :
    ∃ init, placeTokens p ls = init ++ [Token.eof (p.after (ls.flatMap Lexeme.raw))] ∧
      ∀ ls', placeTokens p (ls ++ ls') = init ++ placeTokens (p.after (ls.flatMap Lexeme.raw)) ls' := by
  induction ls generalizing p with
  | nil => exact ⟨[], rfl, fun _ => rfl⟩
  | cons l ls ih =>
    obtain ⟨raw, piece⟩ := l
    obtain ⟨init, halone, hjoined⟩ := ih (p.after raw)
    have hafter : p.after ((⟨raw, piece⟩ :: ls).flatMap Lexeme.raw) =
        (p.after raw).after (ls.flatMap Lexeme.raw) := by
      rw [List.flatMap_cons, Pos.after, List.foldl_append]
      rfl
    rw [hafter]
    cases piece with
    | gap => exact ⟨init, halone, hjoined⟩
    | unhandled text => exact ⟨init, halone, hjoined⟩
    | token kind text =>
      exact ⟨⟨kind, text, p⟩ :: init, congrArg (List.cons _) halone, fun ls' => congrArg (List.cons _) (hjoined ls')⟩

/-- Without its end token a list of placed tokens is what stands before it. -/
private theorem filter_scanTokens {source : String} {init : List Token} {p : Pos}
    (h : scanTokens source = init ++ [Token.eof p]) : (scanTokens source).filter (·.kind ≠ .eof) = init := by
  have htiles : Tiles [] source.toList (scanTokens source) (tokenize source).unhandled :=
    tiles_placeTokens [] source.toList
  obtain ⟨init', htokens, hinit⟩ := htiles.eof_last
  obtain ⟨rfl, -⟩ := List.append_inj' (h.symm.trans htokens) rfl
  rw [h, List.filter_append, List.filter_eq_self.2 fun t ht => by simpa using (hinit t ht).kind_ne_eof]
  simp [Token.eof]

/-- Two sources with a line feed between them give the tokens of the first and, as many lines further down as the
first has, those of the second; and so with the texts set aside.  Only an open string in the first runs on into the
second. -/
theorem scanTokens_join (a b : String) (h : endsInString a = false) :
    scanTokens (a ++ "\n" ++ b) =
        (scanTokens a).filter (·.kind ≠ .eof) ++
          (scanTokens b).map (Token.lowered (1 + a.toList.count '\n')) ∧
      (tokenize (a ++ "\n" ++ b)).unhandled = (tokenize a).unhandled ++ (tokenize b).unhandled := by
  have hjoin := sameTokens_join a.toList b.toList h
  have hchars : (a ++ "\n" ++ b).toList = a.toList ++ '\n' :: b.toList := by simp
  constructor
  · obtain ⟨init, halone, hjoined⟩ := placeTokens_append Pos.start (lexemes a.toList)
    have hbelow : placeTokens (Pos.start.after a.toList) (⟨['\n'], .gap⟩ :: lexemes b.toList) =
        (scanTokens b).map (Token.lowered (1 + a.toList.count '\n')) := by
      change placeTokens ((Pos.start.after a.toList).after ['\n']) (lexemes b.toList) = _
      have hpast : (Pos.start.after a.toList).after ['\n'] = Pos.past (a.toList ++ ['\n']) := by
        rw [Pos.past_append, ← List.nil_append a.toList, Pos.past_append]
        rfl
      rw [hpast, Pos.past_break, placeTokens_lowered]
      rfl
    rw [filter_scanTokens halone, scanTokens, hchars, hjoin.1, hjoined, flatMap_raw_lexemes, hbelow]
  · change unhandledTexts (lexemes (a ++ "\n" ++ b).toList) = _
    rw [hchars, hjoin.2, unhandledTexts, List.filterMap_append]
    rfl

/-- A division sign that ends a line and one that starts the next make no comment. -/
theorem scanTokens_join_slashes :
    let a := "#foo\nprint n /"
    let b := "/ 1. @\n@end"
    endsInString a = false ∧
      scanTokens (a ++ "\n" ++ b) = (scanTokens a).filter (·.kind ≠ .eof) ++ (scanTokens b).map (Token.lowered 2) ∧
      (tokenize (a ++ "\n" ++ b)).unhandled = (tokenize a).unhandled ++ (tokenize b).unhandled := by
  intro a b
  have h : endsInString a = false := by decide +kernel
  have hlines : 1 + a.toList.count '\n' = 2 := by decide +kernel
  have hjoin := scanTokens_join a b h
  rw [hlines] at hjoin
  exact ⟨h, hjoin⟩

end ObjScript
