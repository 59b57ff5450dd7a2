import ObjScript.Machine

/-!
# Operators

Numbers are added and strings are joined; a number beside a string takes part as its text, and null as the
text `nil`.  All other arithmetic and the comparisons need two numbers.
-/

namespace ObjScript.Run

/-- Null takes part in an addition as the text `nil`. -/
def addend : Value → Value
  | .null => .string "nil"
  | v => v

/-- Adds two values. -/
def add (left right : Value) (pos : Pos) : Run Value :=
  match addend left, addend right with
  | .number x, .number y => return .number (x + y)
  | .string s, .string t => return .string (s ++ t)
  | .number x, .string t => return .string (Number.text x ++ t)
  | .string s, .number y => return .string (s ++ Number.text y)
  | l, r => fail (.type (.cannotAdd l.typeName r.typeName) pos)

/-- The number that an operator needs. -/
def operand (op : BinaryOp) (pos : Pos) : Value → Run Float
  | .number x => return x
  | v => fail (.type (.notANumber op.symbol.text v.typeName) pos)

/-- An operator on two numbers. -/
def arithmetic (op : BinaryOp) (x y : Float) : Value :=
  match op with
  | .minus => .number (x - y)
  | .star => .number (x * y)
  | .slash => .number (x / y)
  | .mod => .number (Number.remainder x y)
  | .lt => .bool (x < y)
  | .lte => .bool (x ≤ y)
  | .gt => .bool (y < x)
  | .gte => .bool (y ≤ x)
  | .plus => .number (x + y)
  | .eq => .bool (x == y)
  | .neq => .bool (!(x == y))

/-- An operator on two values.  The left operand is checked first. -/
def binary (op : BinaryOp) (pos : Pos) (left right : Value) : Run Value :=
  match op with
  | .plus => add left right pos
  | .eq => return .bool (left.same right)
  | .neq => return .bool (!left.same right)
  | op => do
    let x ← operand op pos left
    let y ← operand op pos right
    return arithmetic op x y

/-- An operator on one value. -/
def unary (op : UnaryOp) (pos : Pos) (v : Value) : Run Value :=
  match op, v with
  | .not, v => return .bool (!v.isTrue)
  | .negate, .number x => return .number (-x)
  | .negate, v => fail (.type (.cannotNegate v.typeName) pos)

end ObjScript.Run
