import ObjScript.Text.Blank
import ObjScript.Token.Lexer

/-!
# Entries at the prompt

An entry goes on as long as it has an open bracket or an open section of a class.  Pasted text may carry
characters that are not to be seen; they are taken out.
-/

namespace ObjScript.Prompt

/-- Characters that come with pasted text and mean nothing. -/
def isStray (c : Char) : Bool :=
  ['\u200b', '\u200c', '\u200d', '\ufeff', '\u00a0', '\r'].contains c

/-- The entry without stray characters. -/
def normalize (text : String) : String :=
  String.ofList (text.toList.filter fun c => !isStray c)

/-- Counts what is open after a token; what was never opened cannot be closed. -/
def countOpen (opens closes : Kind → Bool) (depth : Nat) (t : Token) : Nat :=
  if opens t.kind then depth + 1 else if closes t.kind then depth - 1 else depth

/-- How much is left open at the end of a text. -/
def openAtEnd (opens closes : Kind → Bool) (text : String) : Nat :=
  (tokenize text).tokens.foldl (countOpen opens closes) 0

/-- Opening brackets. -/
def opensBracket : Kind → Bool
  | .symbol .lpar | .symbol .lsqb | .symbol .lbrace | .symbol .arrayStart => true
  | _ => false

/-- Closing brackets. -/
def closesBracket : Kind → Bool
  | .symbol .rpar | .symbol .rsqb | .symbol .rbrace => true
  | _ => false

/-- The words that open a section of a class. -/
def opensSection : Kind → Bool
  | .keyword .interface | .keyword .implementation => true
  | _ => false

/-- The word that closes a section of a class. -/
def closesSection : Kind → Bool
  | .keyword .endWord => true
  | _ => false

/-- The number of brackets that wait for their partner. -/
def bracketDepth (text : String) : Nat :=
  openAtEnd opensBracket closesBracket text

/-- The entry goes on. -/
def awaitsMore (text : String) : Bool :=
  0 < bracketDepth text || 0 < openAtEnd opensSection closesSection text

/-- The indentation of the next line: four spaces for each open bracket. -/
def indent (text : String) : String :=
  String.ofList (List.replicate (4 * bracketDepth text) ' ')

end ObjScript.Prompt
