import ObjScript.Syntax

/-!
# Values

What a program computes with.  Numbers, strings and truth values stand for themselves; arrays, classes,
instances and frames live in a store and are known here by their numbers.
-/

namespace ObjScript

/-- The number of a frame. -/
structure FrameId where
  index : Nat
deriving DecidableEq, Repr

/-- The number of an array. -/
structure ArrayId where
  index : Nat
deriving DecidableEq, Repr

/-- The number of a class. -/
structure ClassId where
  index : Nat
deriving DecidableEq, Repr

/-- The number of an instance. -/
structure InstanceId where
  index : Nat
deriving DecidableEq, Repr

/-- A chain of frames, from the innermost outward. -/
abbrev Env := List FrameId

/-- A function with the chain of frames it was declared in. -/
structure Closure where
  decl : FunctionDecl
  env : Env

/-- A block literal with the chain of frames it captured. -/
structure BlockClosure where
  params : List Param
  body : List Stmt
  env : Env

/-- Functions that are not written in the language. -/
inductive Native where
  | clock
  | array
  | readLine
  | printLine
  | int
  /-- Makes an instance of the class. -/
  | alloc (c : ClassId)
  /-- Gives the instance back. -/
  | init (i : InstanceId)
deriving DecidableEq, Repr

/-- The name of a native function. -/
def Native.name : Native → String
  | clock => "clock"
  | array => "array"
  | readLine => "readLine"
  | printLine => "printLine"
  | int => "Int"
  | alloc _ => "alloc"
  | init _ => "init"

/-- Methods of arrays and strings together with their subject, one for each entry of the registries. -/
inductive Builtin where
  | arrayCount (a : ArrayId)
  | arrayPop (a : ArrayId)
  | stringCount (s : String)
deriving DecidableEq, Repr

/-- The name of a method of arrays or strings. -/
def Builtin.name : Builtin → String
  | arrayCount _ => "count"
  | arrayPop _ => "pop"
  | stringCount _ => "count"

/-- The values of the language. -/
inductive Value where
  | null
  | number (x : Float)
  | string (s : String)
  | bool (b : Bool)
  | array (a : ArrayId)
  | function (f : Closure)
  | block (b : BlockClosure)
  | native (n : Native)
  | classRef (c : ClassId)
  | object (i : InstanceId)
  | builtin (b : Builtin)
deriving Inhabited

/-- The array or string that the method was found on. -/
def Builtin.subject : Builtin → Value
  | arrayCount a | arrayPop a => .array a
  | stringCount s => .string s

namespace Value

/-- The type of a value as error messages call it. -/
def typeName : Value → String
  | null => "ObjNull"
  | number _ => "ObjNumber"
  | string _ => "ObjString"
  | bool _ => "ObjBool"
  | array _ => "ObjArray"
  | function _ => "ObjFunction"
  | block _ => "ObjBlock"
  | native _ => "NativeFunction"
  | classRef _ => "ObjClass"
  | object _ => "ObjInstance"
  | builtin _ => "BuiltinMethod"

/-- The value is null. -/
def isNull : Value → Bool
  | null => true
  | _ => false

/-- Null and NO are false; everything else is true, zero and the empty string included. -/
def isTrue : Value → Bool
  | null => false
  | bool b => b
  | _ => true

/-- Null equals null only, numbers and strings are compared by value, and anything else by truth. -/
def same : Value → Value → Bool
  | null, null => true
  | null, _ => false
  | _, null => false
  | number x, number y => x == y
  | string s, string t => s = t
  | v, w => v.isTrue = w.isTrue

end Value

/-- The value of a literal. -/
def Literal.value : Literal → Value
  | nil => .null
  | bool b => .bool b
  | number x => .number x
  | string s => .string s

end ObjScript
