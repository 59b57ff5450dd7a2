import ObjScript.Number.Numeral
import ObjScript.Text.Quoted
import ObjScript.Token

/-!
# Failures of a run

A run fails on an operand of the wrong type, which has a place, on a `return` outside of every function,
on an array that is too large, and when calls are nested too deep.  A method that its array or string does
not have is a failure as well, but none that a program comes to.
-/

namespace ObjScript

/-- Operands that an operator does not take, by the names of their types. -/
inductive TypeFault where
  | cannotAdd (left right : String)
  | notANumber (op : String) (got : String)
  | cannotNegate (got : String)
deriving DecidableEq, Repr

/-- The words for operands of the wrong type. -/
def TypeFault.message : TypeFault → String
  | cannotAdd left right => "Cannot add " ++ left ++ " and " ++ right
  | notANumber op got => "Operand of '" ++ op ++ "' must be a number, got " ++ got
  | cannotNegate got => "Operand of unary '-' must be a number, got " ++ got

/-- The number of elements that an array may be made with. -/
def maxArraySize : Nat := Nat.pow 2 24

/-- Why a run failed. -/
inductive Fault where
  | type (fault : TypeFault) (pos : Pos)
  | returnOutside
  | arrayTooLarge (size : String)
  | noBuiltinMethod (typeName name : String)
  | tooDeep
deriving DecidableEq, Repr

namespace Fault

/-- The name of the kind of failure. -/
def kind : Fault → String
  | type _ _ => "MobjcTypeError"
  | returnOutside | arrayTooLarge _ | noBuiltinMethod _ _ => "MobjcRuntimeError"
  | tooDeep => "RecursionError"

/-- The place of the operator that failed. -/
def pos? : Fault → Option Pos
  | type _ pos => some pos
  | _ => none

/-- The words for a failure, without its place. -/
def message : Fault → String
  | type fault _ => fault.message
  | returnOutside => "'return' outside of a function or block"
  | arrayTooLarge size => "array(" ++ size ++ ") exceeds " ++ toString maxArraySize ++ " cells"
  | noBuiltinMethod typeName name => typeName ++ " has no builtin method '" ++ name ++ "'"
  | tooDeep => "maximum recursion depth exceeded"

/-- The words for a failure with its place. -/
def text (f : Fault) : String :=
  match f.pos? with
  | some pos =>
    f.message ++ " (line " ++ toString pos.line ++ ", col " ++ toString pos.column ++ ")"
  | none => f.message

/-- The failure as the log shows it. -/
def describe (f : Fault) : String :=
  f.kind ++ "(" ++ Text.quoted f.message ++ ")"

end Fault

/-- What ends a run early: a failure of the program, a numeral without a value, or a loop that goes on
beyond every bound. -/
inductive Stop where
  | fault (f : Fault)
  | badNumeral (b : Number.BadNumeral)
  | unfinished
deriving DecidableEq, Repr

end ObjScript
