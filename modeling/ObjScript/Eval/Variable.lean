import ObjScript.Machine

/-!
# Reading and writing variables

A reference whose depth is known is read from that frame outward and written to that very frame.  Without
a depth it is read from the current frame outward and written to the nearest frame that owns the name; if
there is none, the value is dropped.
-/

namespace ObjScript.Run

/-- The value of a name, from a frame outward. -/
def readName (env : Env) (name : String) : Run Value :=
  onStore (Store.read env name)

/-- The chain of frames in which a reference is read. -/
def refEnv (env : Env) (ref : Ref) : Env :=
  match ref.depth with
  | some depth => env.ancestor depth
  | none => env

/-- The value of a reference. -/
def read (env : Env) (ref : Ref) : Run Value :=
  readName (refEnv env ref) ref.name.text

/-- Binds a name in the innermost frame. -/
def define (env : Env) (name : String) (v : Value) : Run Unit :=
  modifyStore (·.defineIn env name v)

/-- Gives a reference a new value. -/
def assign (env : Env) (ref : Ref) (v : Value) : Run Unit := do
  match ref.depth with
  | some depth => define (env.ancestor depth) ref.name.text v
  | none =>
    let m ← get
    match m.store.assign? env ref.name.text v with
    | some store => set { m with store := store }
    | none =>
      debug .assignments do
        return "assignment to undeclared " ++ Text.quoted ref.name.text ++ " dropped"

end ObjScript.Run
