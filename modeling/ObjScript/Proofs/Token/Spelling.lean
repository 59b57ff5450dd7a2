import ObjScript.Proofs.Token.Tiles

/-!
# Spelling tokens

A list of tokens is spelled by writing each of them, but for the end token, with a space after it: names and
reserved words after two underscores, strings after an `@`, and all else as it is.  What is spelled is read back
as the tokens it was spelled from, their places aside (`tokenize_spell`).
-/

namespace ObjScript

open ObjScript.Text

/-- One way to write the token. -/
def Token.spelling (t : Token) : List Char :=
  match t.kind with
  | .string => '@' :: doubleQuote :: t.text.toList ++ [doubleQuote]
  | .directive _ => '#' :: t.text.toList
  | .ident | .classIdent | .keyword _ => '_' :: '_' :: t.text.toList
  | _ => t.text.toList

/-- The tokens written one after the other, each with a space after it. -/
def spell (tokens : List Token) : String :=
  String.ofList ((tokens.filter (·.kind ≠ .eof)).flatMap fun t => t.spelling ++ [' '])

/-- The token without its place. -/
def Token.unplaced (t : Token) : Token :=
  { t with pos := Pos.start }

/-! ### Reading one spelling -/

private theorem Text.isBlank_of_isDigit {c : Char} (h : isDigit c) : isBlank c = false := by
  by_contra hblank
  have hapart : ∀ r ∈ blankRanges, ∀ n ∈ List.range' r.1 (r.2 + 1 - r.1), isDigit (Char.ofNat n) = false := by
    decide +kernel
  obtain ⟨r, hr, hc⟩ := List.any_eq_true.1 (Bool.not_eq_false _ ▸ hblank : isBlank c = true)
  have hmem : c.toNat ∈ List.range' r.1 (r.2 + 1 - r.1) := by
    simp only [Bool.and_eq_true, decide_eq_true_eq] at hc
    rw [List.mem_range'_1]
    omega
  have hdigit := hapart r hr c.toNat hmem
  rw [Char.ofNat_toNat, h] at hdigit
  cases hdigit

private theorem takeWhile_run {p : Char → Bool} {run rest : List Char} (hrun : ∀ c ∈ run, p c)
    (hstop : StopsBefore p rest) : (run ++ rest).takeWhile p = run ∧ (run ++ rest).dropWhile p = rest := by
  rw [List.takeWhile_append_of_pos hrun, List.dropWhile_append_of_pos hrun]
  cases rest with
  | nil => simp
  | cons c rest => simp [hstop c rfl]

private theorem WordKind.eq_wordKind {text : String} {kind : Kind} (h : WordKind text kind) :
    Lexeme.wordKind text = kind := by
  unfold Lexeme.wordKind
  cases h with
  | keyword k hk =>
    have : Keyword.ofText? k.text = some k := by cases k <;> rfl
    rw [← hk, this]
  | ident hk =>
    have : Keyword.ofText? text = none := List.find?_eq_none.2 fun k _ => by simpa using hk k
    rw [this]

namespace Lexeme

private theorem scan_spelled_string {body : List Char} (hbody : doubleQuote ∉ body) (rest : List Char) :
    scan '@' (doubleQuote :: body ++ doubleQuote :: rest) =
      (⟨'@' :: doubleQuote :: body ++ [doubleQuote], .token .string (String.ofList body)⟩, rest) := by
  have hrun : ∀ c ∈ body, decide (c ≠ doubleQuote) := by
    intro c hc
    simpa using fun h : c = doubleQuote => hbody (h ▸ hc)
  have hstop : StopsBefore (· ≠ doubleQuote) (doubleQuote :: rest) := by simp [StopsBefore]
  obtain ⟨htake, hdrop⟩ := takeWhile_run hrun hstop
  change string ['@', doubleQuote] (body ++ doubleQuote :: rest) = _
  unfold string
  rw [htake, hdrop]
  rfl

private theorem scan_spelled_word {word : List Char} (hword : ∀ c ∈ word, isWordChar c) (rest : List Char) :
    scan '_' ('_' :: word ++ ' ' :: rest) =
      (⟨'_' :: '_' :: word, .token (wordKind (String.ofList word)) (String.ofList word)⟩, ' ' :: rest) := by
  have hstop : StopsBefore isWordChar (' ' :: rest) := by
    rintro c ⟨⟩
    decide
  obtain ⟨htake, hdrop⟩ := takeWhile_run hword hstop
  change Lexeme.word ['_', '_'] (word ++ ' ' :: rest) = _
  unfold Lexeme.word
  rw [htake, hdrop]
  rfl

private theorem scan_digit {c : Char} (hc : isDigit c) (cs : List Char) : scan c cs = number c cs := by
  have hne : ∀ d : Char, isDigit d = false → c ≠ d := by
    rintro d hd rfl
    rw [hc] at hd
    cases hd
  unfold scan
  simp [isBlank_of_isDigit hc, hc, hne '/' (by decide), hne '@' (by decide), hne doubleQuote (by decide),
    hne '#' (by decide), hne '_' (by decide)]

private theorem scan_spelled_whole {c : Char} {digits : List Char} (hc : isDigit c)
    (hdigits : ∀ d ∈ digits, isDigit d)
    (rest : List Char) :
    scan c (digits ++ ' ' :: rest) = (⟨c :: digits, .token .number (String.ofList (c :: digits))⟩, ' ' :: rest) := by
  have hstop : StopsBefore isDigit (' ' :: rest) := by
    rintro d ⟨⟩
    decide
  obtain ⟨htake, hdrop⟩ := takeWhile_run hdigits hstop
  rw [scan_digit hc]
  unfold number
  rw [htake, hdrop]
  rfl

private theorem scan_spelled_decimal {c d : Char} {whole fraction : List Char} (hc : isDigit c)
    (hwhole : ∀ e ∈ whole, isDigit e) (hd : isDigit d) (hfraction : ∀ e ∈ fraction, isDigit e) (rest : List Char) :
    scan c (whole ++ '.' :: d :: fraction ++ ' ' :: rest) =
      (⟨c :: whole ++ '.' :: d :: fraction, .token .number (String.ofList (c :: whole ++ '.' :: d :: fraction))⟩,
        ' ' :: rest) := by
  have hpoint : StopsBefore isDigit ('.' :: d :: (fraction ++ ' ' :: rest)) := by
    rintro e ⟨⟩
    decide
  have hstop : StopsBefore isDigit (' ' :: rest) := by
    rintro e ⟨⟩
    decide
  obtain ⟨htake, hdrop⟩ := takeWhile_run hwhole hpoint
  obtain ⟨htake', hdrop'⟩ := takeWhile_run hfraction hstop
  rw [scan_digit hc]
  unfold number
  simp only [List.append_assoc, List.cons_append, htake, hdrop, hd, if_true, htake', hdrop']

private theorem scan_spelled_directive (d : Directive) (rest : List Char) :
    scan '#' (d.text.toList ++ ' ' :: rest) =
      (⟨'#' :: d.text.toList, .token (.directive d) d.text⟩, ' ' :: rest) := by
  have hletters : ∀ c ∈ d.text.toList, isLetter c := List.all_eq_true.mp (by cases d <;> rfl)
  have hd : Directive.ofText? d.text = some d := by cases d <;> rfl
  have hstop : StopsBefore isLetter (' ' :: rest) := by
    rintro c ⟨⟩
    decide
  obtain ⟨htake, hdrop⟩ := takeWhile_run hletters hstop
  change directive (d.text.toList ++ ' ' :: rest) = _
  unfold directive
  simp only [htake, hdrop, String.ofList_toList, hd]

private theorem scan_spelled_symbol (s : Symbol) :
    ∃ c cs, s.text.toList = c :: cs ∧ isBlank c = false ∧
      ∀ rest, scan c (cs ++ ' ' :: rest) = (⟨s.text.toList, .token (.symbol s) s.text⟩, ' ' :: rest) := by
  cases s <;> exact ⟨_, _, rfl, rfl, fun _ => rfl⟩

/-- What a token is spelled as is read as that token, up to the space after it. -/
private theorem scan_spelling {kind : Kind} {text : String} {raw after : List Char} (h : Written kind text raw after)
    (pos : Pos) :
    ∃ c cs, Token.spelling ⟨kind, text, pos⟩ = c :: cs ∧ isBlank c = false ∧
      ∀ rest, scan c (cs ++ ' ' :: rest) = (⟨c :: cs, .token kind text⟩, ' ' :: rest) := by
  cases h with
  | @string _ body _ _ hlead hbody hclose =>
    refine ⟨'@', doubleQuote :: body ++ [doubleQuote], by simp [Token.spelling], by decide, fun rest => ?_⟩
    simpa using scan_spelled_string hbody (' ' :: rest)
  | directive d hstop => exact ⟨_, _, rfl, by decide, scan_spelled_directive d⟩
  | @word _ _ word _ hlead hword hstop hk =>
    refine ⟨'_', '_' :: word, ?_, by decide, fun rest => ?_⟩
    · cases hk <;> simp [Token.spelling]
    · rw [scan_spelled_word hword, hk.eq_wordKind]
  | @whole digits _ hne hdigits hstop hpoint =>
    obtain ⟨c, digits, rfl⟩ := List.exists_cons_of_ne_nil hne
    obtain ⟨hc, hdigits⟩ := List.forall_mem_cons.1 hdigits
    exact ⟨c, digits, by simp [Token.spelling], isBlank_of_isDigit hc, scan_spelled_whole hc hdigits⟩
  | @decimal whole fraction _ hne hwhole hne' hfraction hstop =>
    obtain ⟨c, whole, rfl⟩ := List.exists_cons_of_ne_nil hne
    obtain ⟨d, fraction, rfl⟩ := List.exists_cons_of_ne_nil hne'
    obtain ⟨hc, hwhole⟩ := List.forall_mem_cons.1 hwhole
    obtain ⟨hd, hfraction⟩ := List.forall_mem_cons.1 hfraction
    exact ⟨c, whole ++ '.' :: d :: fraction, by simp [Token.spelling], isBlank_of_isDigit hc,
      scan_spelled_decimal hc hwhole hd hfraction⟩
  | symbol s hyield hlong =>
    obtain ⟨c, cs, ht, hblank, hscan⟩ := scan_spelled_symbol s
    exact ⟨c, cs, ht, hblank, ht ▸ hscan⟩

end Lexeme

/-- The name of a class is spelled like any other name. -/
private theorem Token.spelling_unmarked (t : Token) :
    Token.spelling ⟨t.kind.unmarked, t.text, t.pos⟩ = t.spelling := by
  obtain ⟨kind, text, pos⟩ := t
  cases kind <;> rfl

/-- The lexeme of a token that is spelled. -/
def Token.spelled (t : Token) : Lexeme :=
  ⟨t.spelling, .token t.kind.unmarked t.text⟩

private theorem Token.Readable.scan_spelling {t : Token} (h : t.Readable) :
    ∃ c cs, t.spelling = c :: cs ∧ isBlank c = false ∧
      ∀ rest, Lexeme.scan c (cs ++ ' ' :: rest) = (t.spelled, ' ' :: rest) := by
  obtain ⟨raw, after, hw⟩ := h
  obtain ⟨c, cs, hspell, hblank, hscan⟩ := Lexeme.scan_spelling hw t.pos
  rw [t.spelling_unmarked] at hspell
  refine ⟨c, cs, hspell, hblank, fun rest => ?_⟩
  rw [hscan, Token.spelled, hspell]

/-! ### Reading a list that is spelled -/

/-- The characters of a list that is spelled, its end token left out. -/
private def spelledChars (tokens : List Token) : List Char :=
  tokens.flatMap fun t => t.spelling ++ [' ']

private theorem stopsBefore_spelledChars {tokens : List Token} (h : ∀ t ∈ tokens, t.Readable) :
    StopsBefore isBlank (spelledChars tokens) := by
  cases tokens with
  | nil => nofun
  | cons t tokens =>
    obtain ⟨c, cs, hspell, hblank, -⟩ := (h t (by simp)).scan_spelling
    intro d hd
    have hcd : c = d := by simpa [spelledChars, hspell] using hd
    exact hcd ▸ hblank

/-- Each token is read back, and each space after one is a gap. -/
private theorem lexemes_spelledChars {tokens : List Token} (h : ∀ t ∈ tokens, t.Readable) :
    lexemes (spelledChars tokens) = tokens.flatMap fun t => [t.spelled, ⟨[' '], .gap⟩] := by
  induction tokens with
  | nil => simp [spelledChars, lexemes]
  | cons t tokens ih =>
    obtain ⟨ht, htokens⟩ := List.forall_mem_cons.1 h
    obtain ⟨c, cs, hspell, -, hscan⟩ := ht.scan_spelling
    have hchars : spelledChars (t :: tokens) = c :: (cs ++ ' ' :: spelledChars tokens) := by
      simp [spelledChars, hspell]
    have hspace : Lexeme.scan ' ' (spelledChars tokens) = (⟨[' '], .gap⟩, spelledChars tokens) := by
      obtain ⟨htake, hdrop⟩ := takeWhile_run (List.forall_mem_nil _) (stopsBefore_spelledChars htokens)
      have hblank : isBlank ' ' := by decide
      rw [List.nil_append] at htake hdrop
      simp [Lexeme.scan, hblank, htake, hdrop]
    rw [hchars, lexemes, hscan, lexemes, hspace, ih htokens]
    rfl

/-! ### Places and class names -/

/-- The token of a lexeme, without a place. -/
def Lexeme.token? (l : Lexeme) : Option Token :=
  match l.piece with
  | .token kind text => some ⟨kind, text, Pos.start⟩
  | _ => none

private theorem unplaced_placeTokens (p : Pos) (ls : List Lexeme) :
    (placeTokens p ls).map Token.unplaced = ls.filterMap Lexeme.token? ++ [Token.eof Pos.start] := by
  induction ls generalizing p with
  | nil => rfl
  | cons l ls ih =>
    obtain ⟨raw, piece⟩ := l
    cases piece with
    | gap => exact ih _
    | unhandled text => exact ih _
    | token kind text => exact congrArg (List.cons ⟨kind, text, Pos.start⟩) (ih (p.after raw))

private theorem Token.markClass_unplaced (names : Names) (t : Token) :
    t.unplaced.markClass names = (t.markClass names).unplaced := by
  have hcond : (t.unplaced.is .ident && names.contains t.unplaced.text) = (t.is .ident && names.contains t.text) :=
    rfl
  unfold markClass
  rw [hcond]
  split <;> rfl

private theorem endsPointerCast_unplaced (tokens : List Token) :
    endsPointerCast (tokens.map Token.unplaced) = endsPointerCast tokens := by
  rcases tokens with _ | ⟨star, _ | ⟨rpar, rest⟩⟩ <;> rfl

private theorem namesInContext_unplaced (tokens : List Token) :
    namesInContext (tokens.map Token.unplaced) = namesInContext tokens := by
  match tokens with
  | [] | [_] | [_, _] => rfl
  | before :: name :: next :: rest =>
    have ih := namesInContext_unplaced (name :: next :: rest)
    have hcast := endsPointerCast_unplaced (next :: rest)
    simp only [List.map_cons] at ih hcast ⊢
    unfold namesInContext
    rw [ih, hcast]
    rfl

/-- Which names are classes does not depend on where the tokens stand. -/
private theorem markClasses_unplaced (known : Names) (tokens : List Token) :
    markClasses known (tokens.map Token.unplaced) = (markClasses known tokens).map Token.unplaced := by
  have hmarked : markedClasses (tokens.map Token.unplaced) = markedClasses tokens := by
    unfold markedClasses
    rw [List.filter_map, List.map_map]
    rfl
  have hnames : classNames known (tokens.map Token.unplaced) = classNames known tokens := by
    unfold classNames
    rw [hmarked, namesInContext_unplaced]
  unfold markClasses
  rw [hnames, List.map_map, List.map_map]
  exact List.map_congr_left fun t _ => t.markClass_unplaced _

/-- The scanner marks no class. -/
private theorem unmarked_of_mem_lexemes {cs : List Char} {l : Lexeme} (hl : l ∈ lexemes cs) {t : Token}
    (ht : l.token? = some t) : t.kind.unmarked = t.kind := by
  fun_induction lexemes cs with
  | case1 => cases hl
  | case2 c cs ih =>
    rcases List.mem_cons.1 hl with rfl | hl
    · have hfits := Lexeme.fits_scan c cs
      unfold Lexeme.Fits at hfits
      unfold Lexeme.token? at ht
      split at ht
      · next kind text hpiece =>
        rw [hpiece] at hfits
        cases ht
        exact Written.unmarked hfits
      · cases ht
    · exact ih hl

private theorem unmarked_scanTokens {source : String} {t : Token} (ht : t ∈ scanTokens source) :
    t.kind.unmarked = t.kind := by
  have h : t.unplaced ∈ (scanTokens source).map Token.unplaced := List.mem_map_of_mem ht
  unfold scanTokens at h
  rw [unplaced_placeTokens, List.mem_append] at h
  rcases h with h | h
  · obtain ⟨l, hl, htoken⟩ := List.mem_filterMap.1 h
    have hkind : t.unplaced.kind.unmarked = t.unplaced.kind := unmarked_of_mem_lexemes hl htoken
    exact hkind
  · have hkind : t.kind = .eof := congrArg Token.kind (List.mem_singleton.1 h)
    rw [hkind]
    rfl

/-! ### There and back -/

/-- The token without its place, and without the mark of a class. -/
def Token.bare (t : Token) : Token :=
  ⟨t.kind.unmarked, t.text, Pos.start⟩

private theorem bare_markClass (names : Names) {t : Token} (h : t.kind.unmarked = t.kind) :
    (t.markClass names).bare = t.unplaced := by
  unfold Token.bare
  rw [t.unmarked_markClass, t.text_markClass, h]
  rfl

private theorem filterMap_spelled (tokens : List Token) :
    (tokens.flatMap fun t => [t.spelled, ⟨[' '], .gap⟩]).filterMap Lexeme.token? = tokens.map Token.bare := by
  induction tokens with
  | nil => rfl
  | cons t tokens ih =>
    rw [List.flatMap_cons, List.filterMap_append, ih]
    rfl

private theorem unhandledTexts_spelled (tokens : List Token) :
    unhandledTexts (tokens.flatMap fun t => [t.spelled, ⟨[' '], .gap⟩]) = [] := by
  induction tokens with
  | nil => rfl
  | cons t tokens ih => exact ih

/-- Spelling and reading again loses the places and the marks, and nothing is set aside. -/
private theorem scanTokens_spell {tokens : List Token} (h : ∀ t ∈ tokens, t.Readable) (p : Pos) :
    (scanTokens (spell (tokens ++ [Token.eof p]))).map Token.unplaced = (tokens ++ [Token.eof p]).map Token.bare ∧
      (tokenize (spell (tokens ++ [Token.eof p]))).unhandled = [] := by
  have hfilter : (tokens ++ [Token.eof p]).filter (·.kind ≠ .eof) = tokens := by
    rw [List.filter_append, List.filter_eq_self.2 fun t ht => by simpa using (h t ht).kind_ne_eof]
    simp [Token.eof]
  have hlexemes : lexemes (spell (tokens ++ [Token.eof p])).toList =
      tokens.flatMap fun t => [t.spelled, ⟨[' '], .gap⟩] := by
    unfold spell
    rw [hfilter, String.toList_ofList]
    exact lexemes_spelledChars h
  constructor
  · unfold scanTokens
    rw [hlexemes, unplaced_placeTokens, filterMap_spelled, List.map_append]
    rfl
  · change unhandledTexts (lexemes (spell (tokens ++ [Token.eof p])).toList) = []
    rw [hlexemes]
    exact unhandledTexts_spelled tokens

/-- The tokens of a source, spelled and read again, are the tokens of the source, and nothing is set aside. -/
theorem tokenize_spell (source : String) :
    (tokenize (spell (tokenize source).tokens)).tokens.map (fun t => (t.kind, t.text)) =
        (tokenize source).tokens.map (fun t => (t.kind, t.text)) ∧
      (tokenize (spell (tokenize source).tokens)).unhandled = [] := by
  have htiles : Tiles [] source.toList (tokenize source).tokens (tokenize source).unhandled :=
    (tiles_placeTokens [] source.toList).markClass _
  obtain ⟨init, htokens, hinit⟩ := htiles.eof_last
  obtain ⟨hscan, hunhandled⟩ := scanTokens_spell hinit (Pos.past ([] ++ source.toList))
  rw [← htokens] at hscan hunhandled
  refine ⟨?_, hunhandled⟩
  -- places and marks aside, the scanner sees the same tokens twice, so the same names are classes
  have hback : (scanTokens (spell (tokenize source).tokens)).map Token.unplaced =
      (scanTokens source).map Token.unplaced := by
    rw [hscan]
    change ((scanTokens source).map _).map Token.bare = _
    rw [List.map_map]
    exact List.map_congr_left fun t ht => bare_markClass _ (unmarked_scanTokens ht)
  have hmarked := congrArg (markClasses []) hback
  rw [markClasses_unplaced, markClasses_unplaced] at hmarked
  have hpairs := congrArg (List.map fun t : Token => (t.kind, t.text)) hmarked
  rw [List.map_map, List.map_map] at hpairs
  exact hpairs

end ObjScript
