import ObjScript.Token

/-!
# Syntax errors

The parser reports the first thing it did not expect, with the place of the token that it then stood at.
-/

namespace ObjScript

/-- What the parser did not find, or what stood in its place. -/
inductive SyntaxFault where
  | expected (kinds : List Kind) (got : Kind)
  | expectedExpression (got : Kind)
  | expectedType
  | expectedPropertyType
  | expectedTypedefType
  | unnamedBlockType
  | malformedBlockType
  | invalidAssignment
  | invalidIncrement
  | notInInterface
  | notInImplementation
deriving DecidableEq, Repr

/-- The words for a fault. -/
def SyntaxFault.message : SyntaxFault → String
  | expected kinds got =>
    "Expected " ++ " or ".intercalate (kinds.map Kind.name) ++ ", got " ++ got.name
  | expectedExpression got => "Expected expression, got " ++ got.name
  | expectedType => "Expected a type"
  | expectedPropertyType => "Expected a property type"
  | expectedTypedefType => "Expected a type after typedef"
  | unnamedBlockType => "Block type needs a name"
  | malformedBlockType => "Malformed block type"
  | invalidAssignment => "Invalid assignment target"
  | invalidIncrement => "Invalid increment target"
  | notInInterface => "Expected method or @property in @interface"
  | notInImplementation => "Expected method in @implementation"

/-- A fault and its place. -/
structure SyntaxError where
  fault : SyntaxFault
  pos : Pos
deriving DecidableEq, Repr

/-- The message with the place. -/
def SyntaxError.text (e : SyntaxError) : String :=
  e.fault.message ++ " at line " ++ toString e.pos.line ++ ", col " ++ toString e.pos.column

end ObjScript
