import ObjScript.Text.Lines
import ObjScript.Text.Quoted
import ObjScript.Token.Lexer

/-!
# Highlighting

A line is cut into fragments, each with a style: one for each token and one for what lies between them.
-/

namespace ObjScript.Prompt

/-- A stretch of a line and its style. -/
structure Fragment where
  style : String
  text : List Char
deriving DecidableEq, Repr

/-- The style of a keyword. -/
def keywordStyle : Keyword → String
  | .ifWord | .elseWord | .whileWord | .forWord | .returnWord | .printWord | .typedefWord | .selfWord
  | .superWord | .weak => "bold ansicyan"
  | .interface | .implementation | .property | .endWord => "bold ansimagenta"
  | .yes | .no | .nil => "ansicyan"
  | .intType | .boolType | .voidType | .stringType | .idType => "bold ansiblue"

/-- The style of a token.  Symbols and plain names have none. -/
def style : Kind → String
  | .keyword k => keywordStyle k
  | .directive _ => "bold ansimagenta"
  | .number => "ansimagenta"
  | .string => "ansigreen"
  | .classIdent => "bold ansiblue"
  | .symbol _ | .ident | .eof => ""

/-- The first place where the word occurs. -/
def find? (word : List Char) : List Char → Option Nat
  | [] => if word.isEmpty then some 0 else none
  | c :: cs => if word.isPrefixOf (c :: cs) then some 0 else (find? word cs).map (· + 1)

/-- The first place at or after `start` where the word occurs. -/
def findFrom? (word line : List Char) (start : Nat) : Option Nat :=
  if line.length < start then none else (find? word (line.drop start)).map (start + ·)

/-- Where a token's text begins and ends in its line, not before `floor`.  The column of a token is that of
its first character, which for strings and directives comes before the text; a string reaches to its
closing quote, or to the end of the line. -/
def extent? (line : List Char) (t : Token) (floor : Nat) : Option (Nat × Nat) :=
  let start := max floor (t.pos.column - 1)
  if t.is .string then
    let quote := [Text.doubleQuote]
    let afterOpening := ((findFrom? quote line start).map (· + 1)).getD 0
    match findFrom? quote line afterOpening with
    | some close => some (start, close + 1)
    | none => some (start, line.length)
  else
    (findFrom? t.text.toList line start).map fun i => (start, i + t.text.length)

/-- The characters from one place to another. -/
def slice (line : List Char) (start stop : Nat) : List Char :=
  (line.drop start).take (stop - start)

/-- The fragments of the tokens, the line having been dealt with up to `cursor`. -/
def fragmentsFrom (line : List Char) (cursor : Nat) : List Token → List Fragment
  | [] => if cursor < line.length then [⟨"", line.drop cursor⟩] else []
  | t :: rest =>
    if t.is .eof || t.text.isEmpty then fragmentsFrom line cursor rest
    else
      match extent? line t cursor with
      | none => fragmentsFrom line cursor rest
      | some (start, stop) =>
        let gap := if cursor < start then [⟨"", slice line cursor start⟩] else []
        gap ++ ⟨style t.kind, slice line start stop⟩ :: fragmentsFrom line stop rest

/-- The fragments of a line. -/
def highlightLine (line : List Char) : List Fragment :=
  if line.isEmpty then [⟨"", []⟩]
  else
    let fragments := fragmentsFrom line 0 (tokenize (String.ofList line)).tokens
    if fragments.isEmpty then [⟨"", line⟩] else fragments

/-- The fragments of a line of a text, by its number from 0 on.  Past the end there is one empty one. -/
def highlight (text : String) (lineNumber : Nat) : List Fragment :=
  match (Text.splitLines text.toList)[lineNumber]? with
  | some line => highlightLine line
  | none => [⟨"", []⟩]

end ObjScript.Prompt
