import ObjScript.Parser.Statement

/-!
# Programs

`grammar n` ties the rules of the grammar together for texts whose parts are nested at most `n` deep.  A
part lies inside another one only after a token of the outer one, so the length of the token list is
always deep enough.
-/

namespace ObjScript

open Parse

/-- The parsers for parts nested at most `n` deep. -/
def grammar : Nat → Grammar
  | 0 =>
    { type? := cutOff none
      expression := cutOff (.literal .nil)
      assignment := cutOff (.literal .nil)
      factor := cutOff (.literal .nil)
      unary := cutOff (.literal .nil)
      start := cutOff (.block [])
      statement := cutOff (.block []) }
  | n + 1 =>
    let g := grammar n
    { type? := Parse.type? g
      expression := Parse.expression g
      assignment := Parse.assignment g
      factor := Parse.factor g
      unary := Parse.unary g
      start := Parse.start g
      statement := Parse.statement g }

/-- The next statement of a program. -/
def topStatement? (g : Grammar) : Parse (Option Stmt) := do
  if (← atEnd) || (← hadError) then
    return none
  else
    return some (← g.start)

/-- The statements of a program. -/
def program : Parse (List Stmt) := do
  let g := grammar ((← get).rest.length + 1)
  repeated (topStatement? g)

/-- The cursor at the start of a token list. -/
def Cursor.ofTokens (typedefs : Names) (tokens : List Token) : Cursor :=
  ⟨tokens, none, typedefs, false⟩

/-- Parses a token list, given the type names introduced before.  The cursor says where the parser ended
and which type names are known then. -/
def parse (typedefs : Names) (tokens : List Token) :
    Except Number.BadNumeral (List Stmt) × Cursor :=
  program.run.run (Cursor.ofTokens typedefs tokens)

/-- The tokens that were not read because of an error. -/
def Cursor.remaining (c : Cursor) : List Token :=
  if c.error?.isSome then c.rest else []

end ObjScript
