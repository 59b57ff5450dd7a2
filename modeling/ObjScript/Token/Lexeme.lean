import ObjScript.Text.Blank
import ObjScript.Text.Quoted
import ObjScript.Text.Word
import ObjScript.Token

/-!
# Lexemes

The source is cut, from left to right, into lexemes: blanks, comments, tokens, and what starts no
token.  Each lexeme keeps the characters it was cut from, so that the lexemes of a source put together
give the source back (`flatMap_raw_lexemes`).
-/

namespace ObjScript

open ObjScript.Text

/-- What a stretch of the source turns out to be. -/
inductive Piece where
  /-- Blanks or a comment. -/
  | gap
  /-- A character that starts no token, or the word of an unknown directive. -/
  | unhandled (text : String)
  | token (kind : Kind) (text : String)
deriving DecidableEq, Repr

/-- A piece of the source with its characters. -/
structure Lexeme where
  raw : List Char
  piece : Piece
deriving DecidableEq, Repr

namespace Lexeme

/-- Symbols of two characters. -/
def symbol₂? : Char → Char → Option Symbol
  | '=', '=' => some .eq
  | '!', '=' => some .neq
  | '<', '=' => some .lte
  | '>', '=' => some .gte
  | '&', '&' => some .and
  | '|', '|' => some .or
  | '+', '=' => some .plusEq
  | '+', '+' => some .incr
  | _, _ => none

/-- Symbols of one character. -/
def symbol₁? : Char → Option Symbol
  | '^' => some .caret
  | '.' => some .dot
  | ',' => some .comma
  | ';' => some .semi
  | '(' => some .lpar
  | ')' => some .rpar
  | '\x7b' => some .lbrace
  | '\x7d' => some .rbrace
  | '[' => some .lsqb
  | ']' => some .rsqb
  | '*' => some .star
  | '-' => some .minus
  | '?' => some .qmark
  | ':' => some .colon
  | '%' => some .mod
  | '+' => some .plus
  | '&' => some .amp
  | '|' => some .pipe
  | '=' => some .assign
  | '!' => some .bang
  | '<' => some .lt
  | '>' => some .gt
  | '/' => some .slash
  | _ => none

/-- The kind of a word. -/
def wordKind (word : String) : Kind :=
  match Keyword.ofText? word with
  | some k => .keyword k
  | none => .ident

/-- The lexeme made of `lead` and a symbol. -/
def ofSymbol (lead : List Char) (s : Symbol) : Lexeme :=
  ⟨lead, .token (.symbol s) s.text⟩

/-- A word after `lead`, which is not part of its text. -/
def word (lead cs : List Char) : Lexeme × List Char :=
  let text := cs.takeWhile isWordChar
  (⟨lead ++ text, .token (wordKind (String.ofList text)) (String.ofList text)⟩, cs.dropWhile isWordChar)

/-- A string after `lead`, which ends with its opening quote.  Escapes stay as they are written, and a
string without a closing quote runs to the end of the source. -/
def string (lead cs : List Char) : Lexeme × List Char :=
  let body := cs.takeWhile (· ≠ doubleQuote)
  let token := Piece.token .string (String.ofList body)
  match cs.dropWhile (· ≠ doubleQuote) with
  | [] => (⟨lead ++ body, token⟩, [])
  | quote :: rest => (⟨lead ++ body ++ [quote], token⟩, rest)

/-- A string, an array opener or a word after `@`, or the sign alone. -/
def atSign (cs : List Char) : Lexeme × List Char :=
  match cs with
  | [] => (ofSymbol ['@'] .atSign, [])
  | c :: rest =>
    if c = doubleQuote then string ['@', c] rest
    else if c = '[' then (ofSymbol ['@', c] .arrayStart, rest)
    else if isLetter c then word ['@'] cs
    else (ofSymbol ['@'] .atSign, cs)

/-- A `#` and the letters after it. -/
def directive (cs : List Char) : Lexeme × List Char :=
  let letters := cs.takeWhile isLetter
  let text := String.ofList letters
  let piece := match Directive.ofText? text with
    | some d => Piece.token (.directive d) text
    | none => Piece.unhandled text
  (⟨'#' :: letters, piece⟩, cs.dropWhile isLetter)

/-- Two underscores open a word and are not part of it; one is a token of its own. -/
def underscore (cs : List Char) : Lexeme × List Char :=
  match cs with
  | '_' :: rest => word ['_', '_'] rest
  | _ => (ofSymbol ['_'] .underline, cs)

/-- Digits, and a point with more digits if a digit follows it. -/
def number (c : Char) (cs : List Char) : Lexeme × List Char :=
  let whole := c :: cs.takeWhile isDigit
  let token (raw : List Char) : Lexeme := ⟨raw, .token .number (String.ofList raw)⟩
  match cs.dropWhile isDigit with
  | '.' :: d :: rest =>
    if isDigit d then (token (whole ++ '.' :: d :: rest.takeWhile isDigit), rest.dropWhile isDigit)
    else (token whole, '.' :: d :: rest)
  | rest => (token whole, rest)

/-- A symbol of one character; a character that is none is set aside. -/
def single (c : Char) : Lexeme :=
  match symbol₁? c with
  | some s => ofSymbol [c] s
  | none => ⟨[c], .unhandled (String.ofList [c])⟩

/-- The longest symbol. -/
def symbol (c : Char) (cs : List Char) : Lexeme × List Char :=
  match cs with
  | [] => (single c, [])
  | d :: rest =>
    match symbol₂? c d with
    | some s => (ofSymbol [c, d] s, rest)
    | none => (single c, cs)

/-- The first lexeme of a source that starts with `c`, and the rest of the source. -/
def scan (c : Char) (cs : List Char) : Lexeme × List Char :=
  if isBlank c then (⟨c :: cs.takeWhile isBlank, .gap⟩, cs.dropWhile isBlank)
  else if c = '/' && cs.head? = some '/' then
    (⟨c :: cs.takeWhile (· ≠ '\n'), .gap⟩, cs.dropWhile (· ≠ '\n'))
  else if c = '@' then atSign cs
  else if c = doubleQuote then string [c] cs
  else if c = '#' then directive cs
  else if c = '_' then underscore cs
  else if isDigit c then number c cs
  else if isLetter c then word [] (c :: cs)
  else symbol c cs

private theorem word_append (lead cs : List Char) :
    (word lead cs).1.raw ++ (word lead cs).2 = lead ++ cs := by
  simp [word, List.append_assoc]

private theorem string_append (lead cs : List Char) :
    (string lead cs).1.raw ++ (string lead cs).2 = lead ++ cs := by
  have h : cs.takeWhile (· ≠ doubleQuote) ++ cs.dropWhile (· ≠ doubleQuote) = cs :=
    List.takeWhile_append_dropWhile
  unfold string
  split <;> rename_i hr <;> rw [hr] at h <;> simpa using h

private theorem atSign_append (cs : List Char) : (atSign cs).1.raw ++ (atSign cs).2 = '@' :: cs := by
  unfold atSign
  split
  · rfl
  split
  · exact string_append _ _
  split
  · rfl
  split
  · exact word_append _ _
  · rfl

private theorem directive_append (cs : List Char) :
    (directive cs).1.raw ++ (directive cs).2 = '#' :: cs := by
  simp [directive]

private theorem underscore_append (cs : List Char) :
    (underscore cs).1.raw ++ (underscore cs).2 = '_' :: cs := by
  unfold underscore
  split
  · exact word_append _ _
  · rfl

private theorem number_append (c : Char) (cs : List Char) :
    (number c cs).1.raw ++ (number c cs).2 = c :: cs := by
  have h : cs.takeWhile isDigit ++ cs.dropWhile isDigit = cs := List.takeWhile_append_dropWhile
  unfold number
  split
  · rename_i d rest hr
    rw [hr] at h
    split
    · simpa using h
    · simpa using h
  · simp

private theorem raw_single (c : Char) : (single c).raw = [c] := by
  unfold single
  split <;> rfl

private theorem symbol_append (c : Char) (cs : List Char) :
    (symbol c cs).1.raw ++ (symbol c cs).2 = c :: cs := by
  unfold symbol
  split
  · simp [raw_single]
  split
  · rfl
  · simp [raw_single]

/-- A lexeme and the rest of the source make up the source. -/
theorem scan_append (c : Char) (cs : List Char) : (scan c cs).1.raw ++ (scan c cs).2 = c :: cs := by
  unfold scan
  split
  · simp
  split
  · simp
  split
  · subst_vars; exact atSign_append cs
  split
  · exact string_append _ _
  split
  · subst_vars; exact directive_append cs
  split
  · subst_vars; exact underscore_append cs
  split
  · exact number_append c cs
  split
  · exact word_append _ _
  · exact symbol_append c cs

private theorem raw_ne_nil (c : Char) (cs : List Char) : (scan c cs).1.raw ≠ [] := by
  unfold scan
  split
  · simp
  split
  · simp
  split
  · unfold atSign
    split
    · simp [ofSymbol]
    split
    · unfold string; split <;> simp
    split
    · simp [ofSymbol]
    split
    · simp [word]
    · simp [ofSymbol]
  split
  · unfold string; split <;> simp
  split
  · simp [directive]
  split
  · unfold underscore; split <;> simp [word, ofSymbol]
  split
  · unfold number; split <;> try split
    all_goals simp
  split
  · rename_i h
    simp [word, isWordChar, h]
  · unfold symbol
    split
    · simp [raw_single]
    split
    · simp [ofSymbol]
    · simp [raw_single]

/-- Every lexeme takes at least one character. -/
private theorem length_scan_lt (c : Char) (cs : List Char) : (scan c cs).2.length < (c :: cs).length := by
  have h := congrArg List.length (scan_append c cs)
  have hpos := List.length_pos_iff.2 (raw_ne_nil c cs)
  rw [List.length_append] at h
  omega

end Lexeme

/-- The lexemes of a source, from left to right. -/
def lexemes : List Char → List Lexeme
  | [] => []
  | c :: cs => (Lexeme.scan c cs).1 :: lexemes (Lexeme.scan c cs).2
termination_by cs => cs.length
decreasing_by exact Lexeme.length_scan_lt c cs

/-- The lexemes put together are the source. -/
theorem flatMap_raw_lexemes (cs : List Char) : (lexemes cs).flatMap Lexeme.raw = cs := by
  fun_induction lexemes cs with
  | case1 => rfl
  | case2 c cs ih => rw [List.flatMap_cons, ih, Lexeme.scan_append]

end ObjScript
