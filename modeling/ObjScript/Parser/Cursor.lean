import ObjScript.Names
import ObjScript.Number.Numeral
import ObjScript.Parser.Error
import ObjScript.Token.Lexer

/-!
# Reading a token list

A cursor holds the tokens that are still to be read, the first error and the type names introduced so
far.  It never moves past the end token.  An unexpected token is no reason to stop: the error is noted and
a placeholder takes the place of what is missing.

The loops of the parser are given turns, and its parts are nested up to a bound.  A cursor is marked as
unfinished once one of these bounds has cut the parser off.
-/

namespace ObjScript

/-- Where the parser stands. -/
structure Cursor where
  rest : List Token
  error? : Option SyntaxError
  typedefs : Names
  /-- A loop had no turn left, or a part was nested too deep. -/
  unfinished : Bool
deriving DecidableEq, Repr

namespace Cursor

/-- The token to be read next. -/
def current (c : Cursor) : Token :=
  c.rest.headD (Token.eof ⟨0, 0⟩)

/-- The token after the next one; the end token follows itself. -/
def second (c : Cursor) : Token :=
  match c.rest with
  | _ :: t :: _ => t
  | _ => c.current

/-- Everything has been read. -/
def atEnd (c : Cursor) : Bool :=
  c.current.is .eof

/-- Moves past a token, but not past the end token. -/
def advance (c : Cursor) : Cursor :=
  if c.atEnd then c else { c with rest := c.rest.tail }

/-- Notes a fault at the next token.  Only the first one counts. -/
def fail (c : Cursor) (fault : SyntaxFault) : Cursor :=
  match c.error? with
  | some _ => c
  | none => { c with error? := some ⟨fault, c.current.pos⟩ }

end Cursor

/-- A step of the parser.  The only thing that stops it is a number that cannot be read. -/
abbrev Parse := ExceptT Number.BadNumeral (StateM Cursor)

namespace Parse

/-- The token to be read next. -/
def current : Parse Token := do
  return (← get).current

/-- An error has been noted. -/
def hadError : Parse Bool := do
  return (← get).error?.isSome

/-- Everything has been read. -/
def atEnd : Parse Bool := do
  return (← get).atEnd

/-- Gives a value in place of one that a bound does not allow to be found. -/
def cutOff {α : Type} (a : α) : Parse α := do
  modify fun c => { c with unfinished := true }
  return a

/-- Notes a fault at the next token. -/
def fail (fault : SyntaxFault) : Parse Unit :=
  modify (·.fail fault)

/-- Reads the next token. -/
def advance : Parse Token := do
  let c ← get
  set c.advance
  return c.current

/-- The next token has this kind. -/
def check (kind : Kind) : Parse Bool := do
  return (← current).is kind

/-- Reads the next token if its kind is right. -/
def accept? (p : Kind → Bool) : Parse (Option Token) := do
  if p (← current).kind then return some (← advance) else return none

/-- Reads the next token if it has this kind. -/
def accept (kind : Kind) : Parse Bool := do
  return (← accept? (· = kind)).isSome

/-- The name that stands for one that is missing. -/
def placeholder (pos : Pos) : Token :=
  ⟨.ident, "ERROR", pos⟩

/-- Reads a token of one of the kinds; if there is none, notes the fault and gives a placeholder. -/
def expectOr (kinds : List Kind) (fault : Kind → SyntaxFault) : Parse Token := do
  match ← accept? kinds.contains with
  | some t => return t
  | none =>
    let t ← current
    fail (fault t.kind)
    return placeholder t.pos

/-- Reads a token of this kind. -/
def expect (kind : Kind) : Parse Token :=
  expectOr [kind] (.expected [kind])

/-- Runs `item` until it gives nothing; there is one turn for each token of the list. -/
def many {α : Type} (item : Parse (Option α)) : List Token → Parse (List α)
  | [] => cutOff []
  | _ :: turns => do
    match ← item with
    | none => return []
    | some a => return a :: (← many item turns)

/-- A turn for each token that is left, and one more for an error. -/
def turns : Parse (List Token) := do
  let c ← get
  return c.current :: c.rest

/-- Runs `item` until it gives nothing. -/
def repeated {α : Type} (item : Parse (Option α)) : Parse (List α) := do
  many item (← turns)

/-- Items with commas between them. -/
def commaSeparated {α : Type} (item : Parse α) : Parse (List α) := do
  let first ← item
  let others ← repeated do
    if ← accept (.symbol .comma) then return some (← item) else return none
  return first :: others

/-- Applies `step` until it gives nothing; there is one turn for each token of the list. -/
def iterate {α : Type} (step : α → Parse (Option α)) : List Token → α → Parse α
  | [], a => cutOff a
  | _ :: turns, a => do
    match ← step a with
    | none => return a
    | some b => iterate step turns b

/-- Applies `step` until it gives nothing. -/
def extend {α : Type} (a : α) (step : α → Parse (Option α)) : Parse α := do
  iterate step (← turns) a

end Parse

end ObjScript
