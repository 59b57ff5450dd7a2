import Mathlib.Data.List.TakeWhile
import ObjScript.Token.Lexer

/-!
# Tokens tile the source

The source falls, from left to right and without gap or overlap, into blanks, comments, lexemes that are set
aside and one lexeme for each token (`Tiles`).  `Written` says how a token of each kind is written, and
`Pos.past` where the character after a stretch of text stands: one line for each line feed before it, one
column for each character since the last of them.  The main statement is `tokens_tile_source`.
-/

namespace ObjScript

open ObjScript.Text

/-- The text is over or goes on with a character outside the class. -/
def StopsBefore (p : Char → Bool) (rest : List Char) : Prop :=
  ∀ c ∈ rest.head?, p c = false

/-- What separates tokens: all blanks of a run, or a comment up to the line feed. -/
inductive IsGap (raw rest : List Char) : Prop where
  | blanks : raw ≠ [] → (∀ c ∈ raw, isBlank c) → StopsBefore isBlank rest → IsGap raw rest
  | comment (body : List Char) : raw = '/' :: '/' :: body → '\n' ∉ body →
      StopsBefore (· ≠ '\n') rest → IsGap raw rest

/-- What is part of no token: a character that nothing starts with, or `#` and the letters after it, which are
no directive.  The text leaves out the `#`. -/
inductive SetAside : String → List Char → List Char → Prop where
  | character {c : Char} {rest : List Char} : isBlank c = false → isDigit c = false → isLetter c = false →
      c ≠ doubleQuote → c ≠ '#' → (∀ s : Symbol, ¬ s.text.toList <+: c :: rest) →
      SetAside (String.ofList [c]) [c] rest
  | directive {letters rest : List Char} : (∀ c ∈ letters, isLetter c) → StopsBefore isLetter rest →
      (∀ d : Directive, d.text ≠ String.ofList letters) →
      SetAside (String.ofList letters) ('#' :: letters) rest

/-- The kind of a word: reserved words have their own, all others are names. -/
inductive WordKind (text : String) : Kind → Prop where
  | keyword (k : Keyword) : k.text = text → WordKind text (.keyword k)
  | ident : (∀ k : Keyword, k.text ≠ text) → WordKind text .ident

/-- The kind as it is written: the name of a class looks like any other name. -/
def Kind.unmarked : Kind → Kind
  | .classIdent => .ident
  | kind => kind

/-- What may stand before a word without being part of it.  Only after two underscores may the word be empty or
start with something other than a letter. -/
def LeadsWord (lead word : List Char) : Prop :=
  lead = ['_', '_'] ∨ (lead = [] ∨ lead = ['@']) ∧ ∃ c ∈ word.head?, isLetter c

/-- The character makes the symbol the start of something that is no symbol: a comment, a word, a string. -/
def Symbol.yieldsTo : Symbol → Char → Bool
  | .slash, c => c = '/'
  | .underline, c => c = '_'
  | .atSign, c => c = doubleQuote || isLetter c
  | _, _ => false

/-- How a token is written: its kind, its text, its lexeme and what follows the lexeme in the source. -/
inductive Written : Kind → String → List Char → List Char → Prop where
  | string {lead body close rest : List Char} : lead = [] ∨ lead = ['@'] → doubleQuote ∉ body →
      close = [doubleQuote] ∨ close = [] ∧ rest = [] →
      Written .string (String.ofList body) (lead ++ doubleQuote :: body ++ close) rest
  | directive (d : Directive) {rest : List Char} : StopsBefore isLetter rest →
      Written (.directive d) d.text ('#' :: d.text.toList) rest
  | word {kind : Kind} {lead word rest : List Char} : LeadsWord lead word → (∀ c ∈ word, isWordChar c) →
      StopsBefore isWordChar rest → WordKind (String.ofList word) kind →
      Written kind (String.ofList word) (lead ++ word) rest
  | whole {digits rest : List Char} : digits ≠ [] → (∀ c ∈ digits, isDigit c) → StopsBefore isDigit rest →
      (∀ d more, rest = '.' :: d :: more → isDigit d = false) →
      Written .number (String.ofList digits) digits rest
  | decimal {whole fraction rest : List Char} : whole ≠ [] → (∀ c ∈ whole, isDigit c) →
      fraction ≠ [] → (∀ c ∈ fraction, isDigit c) → StopsBefore isDigit rest →
      Written .number (String.ofList (whole ++ '.' :: fraction)) (whole ++ '.' :: fraction) rest
  | symbol (s : Symbol) {rest : List Char} : StopsBefore s.yieldsTo rest →
      (∀ s' : Symbol, s'.text.toList <+: s.text.toList ++ rest → s'.text.length ≤ s.text.length) →
      Written (.symbol s) s.text s.text.toList rest

/-- The place just past a text that starts the source. -/
def Pos.past (before : List Char) : Pos where
  line := 1 + before.count '\n'
  column := 1 + (before.reverse.takeWhile (· ≠ '\n')).length

/-- With `before` read already, the rest of the source falls into pieces that give these tokens and these
texts set aside, and the tokens stand where their lexemes start. -/
inductive Tiles : List Char → List Char → List Token → List String → Prop where
  | done {before : List Char} : Tiles before [] [Token.eof (Pos.past before)] []
  | gap {before raw rest : List Char} {tokens : List Token} {unhandled : List String} : IsGap raw rest →
      Tiles (before ++ raw) rest tokens unhandled → Tiles before (raw ++ rest) tokens unhandled
  | setAside {before raw rest : List Char} {text : String} {tokens : List Token} {unhandled : List String} :
      SetAside text raw rest → Tiles (before ++ raw) rest tokens unhandled →
      Tiles before (raw ++ rest) tokens (text :: unhandled)
  | token {before raw rest : List Char} {t : Token} {tokens : List Token} {unhandled : List String} :
      Written t.kind.unmarked t.text raw rest → t.pos = Pos.past before →
      Tiles (before ++ raw) rest tokens unhandled → Tiles before (raw ++ rest) (t :: tokens) unhandled

/-! ### Runs of one class -/

private theorem stopsBefore_dropWhile (p : Char → Bool) (cs : List Char) : StopsBefore p (cs.dropWhile p) := by
  intro c hc
  have h := List.head?_dropWhile_not p cs
  rw [Option.mem_def.1 hc] at h
  simpa using h

private theorem notMem_takeWhile_ne (a : Char) (cs : List Char) : a ∉ cs.takeWhile (· ≠ a) := by
  intro h
  simpa using List.mem_takeWhile_imp h

/-! ### Spellings -/

private theorem Keyword.mem_all (k : Keyword) : k ∈ all := by
  cases k <;> decide

private theorem Directive.mem_all (d : Directive) : d ∈ all := by
  cases d <;> decide

/-- A word has the kind that the scanner gives it. -/
private theorem wordKind_spec (text : String) : WordKind text (Lexeme.wordKind text) := by
  unfold Lexeme.wordKind
  split
  · next k h => exact .keyword k (by simpa using List.find?_some h)
  · next h =>
    refine .ident fun k hk => ?_
    simpa [hk] using List.find?_eq_none.1 h k k.mem_all

/-- Symbols have one character or two, and the scanner's tables list all but those that start with `@` or `_`. -/
private theorem Symbol.text_shape (s : Symbol) :
    (∃ c, s.text.toList = [c] ∧ (Lexeme.symbol₁? c = some s ∨ c = '@' ∨ c = '_')) ∨
      ∃ c d, s.text.toList = [c, d] ∧ (Lexeme.symbol₂? c d = some s ∨ c = '@' ∧ d = '[') := by
  cases s <;> first
    | exact .inl ⟨_, rfl, .inl rfl⟩
    | exact .inl ⟨_, rfl, .inr (.inl rfl)⟩
    | exact .inl ⟨_, rfl, .inr (.inr rfl)⟩
    | exact .inr ⟨_, _, rfl, .inl rfl⟩
    | exact .inr ⟨_, _, rfl, .inr ⟨rfl, rfl⟩⟩

private theorem Symbol.length_text_le (s : Symbol) : s.text.length ≤ 2 := by
  cases s <;> decide

private theorem Symbol.toList_of_symbol₁? {s : Symbol} {c : Char} (h : Lexeme.symbol₁? c = some s) :
    s.text.toList = [c] := by
  unfold Lexeme.symbol₁? at h
  split at h <;> cases h <;> rfl

private theorem Symbol.toList_of_symbol₂? {s : Symbol} {c d : Char} (h : Lexeme.symbol₂? c d = some s) :
    s.text.toList = [c, d] := by
  unfold Lexeme.symbol₂? at h
  split at h <;> cases h <;> rfl

/-- Of the symbols in the table only the slash can open something else, a comment. -/
private theorem Symbol.stopsBefore_yieldsTo {s : Symbol} {c : Char} {rest : List Char}
    (h : Lexeme.symbol₁? c = some s) (hslash : c = '/' → '/' ∉ rest.head?) :
    StopsBefore s.yieldsTo rest := by
  intro d hd
  unfold Lexeme.symbol₁? at h
  split at h <;> cases h <;> try rfl
  have hne : d ≠ '/' := by
    rintro rfl
    exact hslash rfl hd
  simpa [Symbol.yieldsTo] using hne

/-- Where no symbol of two characters starts, no symbol is longer than one. -/
private theorem Symbol.length_text_le_one {s : Symbol} {c : Char} {rest : List Char}
    (htwo : ∀ d ∈ rest.head?, Lexeme.symbol₂? c d = none) (hat : c = '@' → '[' ∉ rest.head?)
    (h : s.text.toList <+: c :: rest) : s.text.length ≤ 1 := by
  rw [← String.length_toList]
  obtain ⟨c', hs, -⟩ | ⟨c', d, hs, hc⟩ := s.text_shape
  · rw [hs]; rfl
  · -- a symbol of two characters would have been found
    rw [hs, List.cons_prefix_cons] at h
    obtain ⟨rfl, h⟩ := h
    have hd : d ∈ rest.head? := by
      cases rest with
      | nil => simp at h
      | cons e rest => simpa using (List.cons_prefix_cons.1 h).1.symm
    rcases hc with hc | ⟨rfl, rfl⟩
    · rw [htwo d hd] at hc; cases hc
    · exact absurd hd (hat rfl)

/-! ### One lexeme -/

/-- The lexeme is what its piece says, before `rest`. -/
def Lexeme.Fits (l : Lexeme) (rest : List Char) : Prop :=
  match l.piece with
  | .gap => IsGap l.raw rest
  | .unhandled text => SetAside text l.raw rest
  | .token kind text => Written kind text l.raw rest

namespace Lexeme

private theorem fits_word {lead cs : List Char} (h : LeadsWord lead (cs.takeWhile isWordChar)) :
    (word lead cs).1.Fits (word lead cs).2 :=
  Written.word h (fun _ hc => List.mem_takeWhile_imp hc) (stopsBefore_dropWhile _ _) (wordKind_spec _)

/-- A word after at most an `@` starts with a letter. -/
private theorem leadsWord_of_letter {lead : List Char} {c : Char} (cs : List Char) (hl : lead = [] ∨ lead = ['@'])
    (hc : isLetter c) : LeadsWord lead ((c :: cs).takeWhile isWordChar) := by
  refine .inr ⟨hl, c, ?_, hc⟩
  have h : isWordChar c := by simp [isWordChar, hc]
  simp [h]

private theorem fits_string (lead cs : List Char) (hl : lead = [] ∨ lead = ['@']) :
    (string (lead ++ [doubleQuote]) cs).1.Fits (string (lead ++ [doubleQuote]) cs).2 := by
  have hstop := stopsBefore_dropWhile (· ≠ doubleQuote) cs
  have hbody := notMem_takeWhile_ne doubleQuote cs
  unfold string
  split
  · have h := @Written.string lead _ [] [] hl hbody (.inr ⟨rfl, rfl⟩)
    simpa [Fits] using h
  · next quote rest hr =>
    rw [hr] at hstop
    have hq : quote = doubleQuote := by simpa using hstop quote rfl
    have h := @Written.string lead _ [quote] rest hl hbody (.inl (by rw [hq]))
    simpa [Fits] using h

private theorem fits_atSign (cs : List Char) : (atSign cs).1.Fits (atSign cs).2 := by
  unfold atSign
  split
  · refine Written.symbol .atSign (by simp [StopsBefore]) fun s hs => ?_
    exact Symbol.length_text_le_one (by simp) (by simp) hs
  next c rest =>
  split
  · next hc => subst hc; exact fits_string ['@'] rest (.inr rfl)
  split
  · next hc =>
    subst hc
    exact Written.symbol .arrayStart (by simp [StopsBefore, Symbol.yieldsTo]) fun s _ => s.length_text_le
  split
  · next hc => exact fits_word (leadsWord_of_letter rest (.inr rfl) hc)
  · next hquote hsqb hletter =>
    refine Written.symbol .atSign ?_ fun s hs => ?_
    · simp [StopsBefore, Symbol.yieldsTo, hquote, hletter]
    · exact Symbol.length_text_le_one (fun _ _ => rfl) (fun _ => by simpa using hsqb) hs

private theorem fits_directive (cs : List Char) : (directive cs).1.Fits (directive cs).2 := by
  have hstop := stopsBefore_dropWhile isLetter cs
  unfold directive
  dsimp only
  split
  · next d h =>
    have ht : d.text = String.ofList (cs.takeWhile isLetter) := by simpa using List.find?_some h
    have hw := Written.directive d hstop
    rw [ht, String.toList_ofList] at hw
    exact hw
  · next h =>
    refine SetAside.directive (fun _ hc => List.mem_takeWhile_imp hc) hstop fun d hd => ?_
    simpa [hd] using List.find?_eq_none.1 h d d.mem_all

private theorem fits_underscore (cs : List Char) : (underscore cs).1.Fits (underscore cs).2 := by
  unfold underscore
  split
  · exact fits_word (.inl rfl)
  · next hcs =>
    refine Written.symbol .underline ?_ fun s hs => ?_
    · intro c hc
      cases cs with
      | nil => cases hc
      | cons d rest =>
        cases hc
        by_cases hd : c = '_'
        · exact absurd (hd ▸ rfl) (hcs rest)
        · simp [Symbol.yieldsTo, hd]
    · exact Symbol.length_text_le_one (fun _ _ => rfl) (by nofun) hs

private theorem fits_number {c : Char} (cs : List Char) (hc : isDigit c) : (number c cs).1.Fits (number c cs).2 := by
  have hstop := stopsBefore_dropWhile isDigit cs
  have hall : ∀ d ∈ c :: cs.takeWhile isDigit, isDigit d := by
    intro d hd
    rcases List.mem_cons.1 hd with rfl | hd
    · exact hc
    · exact List.mem_takeWhile_imp hd
  unfold number
  split
  · next d rest hr =>
    split
    · next hd =>
      refine Written.decimal (by simp) hall (by simp) ?_ (stopsBefore_dropWhile _ _)
      intro e he
      rcases List.mem_cons.1 he with rfl | he
      · exact hd
      · exact List.mem_takeWhile_imp he
    · next hd =>
      rw [hr] at hstop
      refine Written.whole (by simp) hall hstop ?_
      rintro e more ⟨⟩
      simpa using hd
  · next hr =>
    refine Written.whole (by simp) hall hstop ?_
    intro e more he
    exact absurd he (hr e more)

/-- A character that starts nothing longer, with what the scanner has ruled out before it comes here. -/
private theorem fits_single {c : Char} {rest : List Char} (hblank : isBlank c = false) (hdigit : isDigit c = false)
    (hletter : isLetter c = false) (hquote : c ≠ doubleQuote) (hhash : c ≠ '#') (hat : c ≠ '@')
    (hline : c ≠ '_') (hslash : c = '/' → '/' ∉ rest.head?)
    (htwo : ∀ d ∈ rest.head?, symbol₂? c d = none) : (single c).Fits rest := by
  have hlong : ∀ s : Symbol, s.text.toList <+: c :: rest → s.text.length ≤ 1 := fun s =>
    Symbol.length_text_le_one htwo fun h => absurd h hat
  unfold single
  split
  · next s hs =>
    have ht := Symbol.toList_of_symbol₁? hs
    have hone : s.text.length = 1 := by rw [← String.length_toList, ht]; rfl
    have hw : Written (.symbol s) s.text s.text.toList rest := by
      refine Written.symbol s (Symbol.stopsBefore_yieldsTo hs hslash) fun s' hs' => ?_
      rw [hone]
      rw [ht] at hs'
      exact hlong s' hs'
    rw [ht] at hw
    exact hw
  · next hs =>
    refine SetAside.character hblank hdigit hletter hquote hhash fun s hp => ?_
    -- a symbol at the front would be a single character, and the table has none
    obtain ⟨c', ht, hc⟩ | ⟨c', d, ht, -⟩ := s.text_shape
    · rw [ht, List.cons_prefix_cons] at hp
      obtain ⟨rfl, -⟩ := hp
      rcases hc with hc | hc | hc
      · rw [hs] at hc; cases hc
      · exact hat hc
      · exact hline hc
    · have hlen := hlong s hp
      rw [← String.length_toList, ht] at hlen
      simp at hlen

private theorem fits_symbol {c : Char} {cs : List Char} (hblank : isBlank c = false) (hdigit : isDigit c = false)
    (hletter : isLetter c = false) (hquote : c ≠ doubleQuote) (hhash : c ≠ '#') (hat : c ≠ '@')
    (hline : c ≠ '_') (hslash : c = '/' → '/' ∉ cs.head?) : (symbol c cs).1.Fits (symbol c cs).2 := by
  unfold symbol
  split
  · exact fits_single hblank hdigit hletter hquote hhash hat hline hslash (by simp)
  next d rest =>
  split
  · next s hs =>
    have ht := Symbol.toList_of_symbol₂? hs
    have htwo : s.text.length = 2 := by rw [← String.length_toList, ht]; rfl
    have hw : Written (.symbol s) s.text s.text.toList rest := by
      refine Written.symbol s ?_ fun s' _ => ?_
      · unfold symbol₂? at hs
        split at hs <;> cases hs <;> exact fun _ _ => rfl
      · rw [htwo]
        exact s'.length_text_le
    rw [ht] at hw
    exact hw
  · next hs =>
    refine fits_single hblank hdigit hletter hquote hhash hat hline hslash fun d' hd' => ?_
    cases hd'
    exact hs

/-- The first lexeme of a source is what it is taken for. -/
theorem fits_scan (c : Char) (cs : List Char) : (scan c cs).1.Fits (scan c cs).2 := by
  unfold scan
  split
  · next hblank =>
    refine IsGap.blanks (by simp) (fun d hd => ?_) (stopsBefore_dropWhile _ _)
    rcases List.mem_cons.1 hd with rfl | hd
    · exact hblank
    · exact List.mem_takeWhile_imp hd
  next hblank =>
  split
  · next hcomment =>
    cases cs with
    | nil => simp at hcomment
    | cons d cs =>
      obtain ⟨rfl, rfl⟩ : c = '/' ∧ d = '/' := by simpa using hcomment
      exact IsGap.comment _ (by simp) (notMem_takeWhile_ne '\n' cs) (stopsBefore_dropWhile _ _)
  next hcomment =>
  split
  · exact fits_atSign cs
  next hat =>
  split
  · next hquote => subst hquote; exact fits_string [] cs (.inl rfl)
  next hquote =>
  split
  · exact fits_directive cs
  next hhash =>
  split
  · exact fits_underscore cs
  next hline =>
  split
  · next hdigit => exact fits_number cs hdigit
  next hdigit =>
  split
  · next hletter => exact fits_word (leadsWord_of_letter cs (.inl rfl) hletter)
  next hletter =>
  refine fits_symbol (by simpa using hblank) (by simpa using hdigit) (by simpa using hletter) hquote hhash hat
    hline fun hc hslash => hcomment ?_
  rw [hc, Option.mem_def.1 hslash]
  rfl

end Lexeme

/-! ### Places -/

/-- The place after a text is reached character by character. -/
private theorem Pos.past_concat (before : List Char) (c : Char) :
    Pos.past (before ++ [c]) = (Pos.past before).next c := by
  by_cases hc : c = '\n'
  · subst hc
    simp [Pos.past, Pos.next]
    omega
  · simp [Pos.past, Pos.next, hc]
    omega

theorem Pos.past_append (before raw : List Char) : Pos.past (before ++ raw) = (Pos.past before).after raw := by
  induction raw generalizing before with
  | nil => simp [Pos.after]
  | cons c raw ih =>
    rw [List.append_cons, ih, past_concat]
    rfl

/-! ### The whole source -/

/-- Nothing is written as the name of a class or as the end of the source. -/
private theorem Written.kind_ne {kind : Kind} {text : String} {raw rest : List Char}
    (h : Written kind text raw rest) :
    kind ≠ .classIdent ∧ kind ≠ .eof := by
  cases h with
  | word _ _ _ hk => cases hk <;> constructor <;> nofun
  | _ => constructor <;> nofun

theorem Written.unmarked {kind : Kind} {text : String} {raw rest : List Char} (h : Written kind text raw rest) :
    kind.unmarked = kind := by
  have hne := h.kind_ne.1
  cases kind <;> first | rfl | exact absurd rfl hne

/-- One more lexeme in front. -/
private theorem Tiles.cons_lexeme {before rest : List Char} {l : Lexeme} {ls : List Lexeme} (hfits : l.Fits rest)
    (hlater : Tiles (before ++ l.raw) rest (placeTokens (Pos.past (before ++ l.raw)) ls) (unhandledTexts ls)) :
    Tiles before (l.raw ++ rest) (placeTokens (Pos.past before) (l :: ls)) (unhandledTexts (l :: ls)) := by
  rw [Pos.past_append] at hlater
  obtain ⟨raw, piece⟩ := l
  cases piece with
  | gap => exact Tiles.gap hfits hlater
  | unhandled text => exact Tiles.setAside hfits hlater
  | token kind text =>
    have hw : Written kind text raw rest := hfits
    rw [← hw.unmarked] at hw
    exact @Tiles.token _ _ _ ⟨kind, text, Pos.past before⟩ _ _ hw rfl hlater

theorem tiles_placeTokens (before cs : List Char) :
    Tiles before cs (placeTokens (Pos.past before) (lexemes cs)) (unhandledTexts (lexemes cs)) := by
  fun_induction lexemes cs generalizing before with
  | case1 => exact Tiles.done
  | case2 c cs ih =>
    have h := Tiles.cons_lexeme (Lexeme.fits_scan c cs) (ih (before ++ (Lexeme.scan c cs).1.raw))
    rwa [Lexeme.scan_append] at h

theorem Token.unmarked_markClass (names : Names) (t : Token) :
    (t.markClass names).kind.unmarked = t.kind.unmarked := by
  unfold markClass
  split
  · next h =>
    have hident : t.kind = .ident := by simpa [Token.is] using (Bool.and_eq_true_iff.1 h).1
    rw [hident]
    rfl
  · rfl

theorem Token.text_markClass (names : Names) (t : Token) : (t.markClass names).text = t.text := by
  unfold markClass
  split <;> rfl

theorem Token.pos_markClass (names : Names) (t : Token) : (t.markClass names).pos = t.pos := by
  unfold markClass
  split <;> rfl

/-- Marking the names of classes changes no lexeme. -/
theorem Tiles.markClass (names : Names) {before cs : List Char} {tokens : List Token} {unhandled : List String}
    (h : Tiles before cs tokens unhandled) : Tiles before cs (tokens.map (·.markClass names)) unhandled := by
  induction h with
  | done => exact Tiles.done
  | gap hgap _ ih => exact Tiles.gap hgap ih
  | setAside haside _ ih => exact Tiles.setAside haside ih
  | @token _ _ _ t _ _ hw hpos _ ih =>
    rw [← t.unmarked_markClass names, ← t.text_markClass names] at hw
    rw [← t.pos_markClass names] at hpos
    exact Tiles.token hw hpos ih

/-- The token can stand in a source. -/
def Token.Readable (t : Token) : Prop :=
  ∃ raw rest, Written t.kind.unmarked t.text raw rest

theorem Token.Readable.kind_ne_eof {t : Token} (h : t.Readable) : t.kind ≠ .eof := by
  obtain ⟨raw, rest, hw⟩ := h
  intro heof
  rw [heof] at hw
  exact hw.kind_ne.2 rfl

/-- The end token closes the tokens, just past the source, and all others are read. -/
theorem Tiles.eof_last {before cs : List Char} {tokens : List Token} {unhandled : List String}
    (h : Tiles before cs tokens unhandled) :
    ∃ init, tokens = init ++ [Token.eof (Pos.past (before ++ cs))] ∧ ∀ t ∈ init, t.Readable := by
  induction h with
  | done => exact ⟨[], by simp, by nofun⟩
  | gap _ _ ih => simpa using ih
  | setAside _ _ ih => simpa using ih
  | @token _ raw rest t _ _ hw _ _ ih =>
    obtain ⟨init, rfl, hinit⟩ := ih
    exact ⟨t :: init, by simp, List.forall_mem_cons.2 ⟨⟨raw, rest, hw⟩, hinit⟩⟩

/-- Every source falls, from its first character to its last, into gaps, lexemes set aside and the lexemes of
its tokens, each token standing where its lexeme starts; then comes the one end token. -/
theorem tokens_tile_source (source : String) :
    Tiles [] source.toList (tokenize source).tokens (tokenize source).unhandled ∧
      ∃ init, (tokenize source).tokens = init ++ [Token.eof (Pos.past source.toList)] ∧
        ∀ t ∈ init, t.kind ≠ .eof := by
  have h : Tiles [] source.toList (tokenize source).tokens (tokenize source).unhandled :=
    (tiles_placeTokens [] source.toList).markClass _
  obtain ⟨init, htokens, hinit⟩ := h.eof_last
  exact ⟨h, init, htokens, fun t ht => (hinit t ht).kind_ne_eof⟩

end ObjScript
