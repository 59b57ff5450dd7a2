import ObjScript.Number.Text
import ObjScript.Store.Env

/-!
# Values as text

An array shows its elements in brackets, so an array that contains itself has no text; every other value
has one.
-/

namespace ObjScript

namespace Store

/-- The text of a value with arrays nested at most `n` deep. -/
def textUpTo (s : Store) : Nat → Value → Option String
  | _, .null => some "nil"
  | _, .number x => some (Number.text x)
  | _, .string t => some t
  | _, .bool b => some (if b then "YES" else "NO")
  | 0, .array _ => none
  | n + 1, .array a => do
    let parts ← (s.elements a).toList.mapM (textUpTo s n)
    return "[" ++ ", ".intercalate parts ++ "]"
  | _, .function f => some ("<function " ++ f.decl.name.text ++ ">")
  | _, .block _ => some "<block>"
  | _, .native n => some ("<native " ++ n.name ++ ">")
  | _, .classRef c => some (s.classOf c).name
  | _, .object i => some ((s.classOf (s.object i).cls).name ++ " instance")
  | _, .builtin b => some ("<builtin " ++ b.name ++ ">")

/-- The text of a value.  An array with elements is one of the store, so where more arrays lie one inside the
other than these and a last one, some array contains itself. -/
def text? (s : Store) (v : Value) : Option String :=
  s.textUpTo (s.arrays.size + 1) v

/-- The bindings of a frame as text. -/
def frameText? (s : Store) (f : FrameId) : Option String := do
  let parts ← (s.frame f).bindings.mapM fun p => do return p.1 ++ ": " ++ (← s.text? p.2)
  return "\x7b" ++ ", ".intercalate parts ++ "\x7d"

/-- The frames of a chain as text, from the innermost outward. -/
def envText? (s : Store) (env : Env) : Option String := do
  return " -> ".intercalate (← env.mapM s.frameText?)

end Store

end ObjScript
