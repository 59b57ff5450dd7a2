import ObjScript.Token.ClassName
import ObjScript.Token.Lexeme

/-!
# From source to tokens

The lexemes of a source become tokens with the places where they start, closed by an end token just
past the source.  Nothing is refused: what starts no token is listed in `unhandled`.
-/

namespace ObjScript

/-- The place after a character: only a line feed starts a line. -/
def Pos.next (p : Pos) (c : Char) : Pos :=
  if c = '\n' then ⟨p.line + 1, 1⟩ else ⟨p.line, p.column + 1⟩

/-- The place after a stretch of characters. -/
def Pos.after (p : Pos) (cs : List Char) : Pos :=
  cs.foldl Pos.next p

/-- The place of the first character. -/
def Pos.start : Pos := ⟨1, 1⟩

/-- The token that closes a list. -/
def Token.eof (p : Pos) : Token :=
  ⟨.eof, "", p⟩

/-- Gives the tokens among the lexemes their places, the first lexeme standing at `p`. -/
def placeTokens (p : Pos) : List Lexeme → List Token
  | [] => [Token.eof p]
  | l :: rest =>
    let later := placeTokens (p.after l.raw) rest
    match l.piece with
    | .token kind text => ⟨kind, text, p⟩ :: later
    | _ => later

/-- The texts that are part of no token. -/
def unhandledTexts (ls : List Lexeme) : List String :=
  ls.filterMap fun l =>
    match l.piece with
    | .unhandled text => some text
    | _ => none

/-- The result of cutting a source into tokens. -/
structure Scanned where
  tokens : List Token
  unhandled : List String
deriving DecidableEq, Repr

/-- The tokens of a source before class names are marked. -/
def scanTokens (source : String) : List Token :=
  placeTokens Pos.start (lexemes source.toList)

/-- The tokens of a source. -/
def tokenize (source : String) : Scanned where
  tokens := markClasses [] (scanTokens source)
  unhandled := unhandledTexts (lexemes source.toList)

end ObjScript
