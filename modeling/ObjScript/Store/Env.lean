import ObjScript.Store.Member

/-!
# Chains of frames

A name is looked up from a frame outward.  A frame owns the names that are bound in it and, if it carries
a bound method, the members of the instance.  Writing to a property through such a frame changes the
instance.

`define` writes to one frame, `assign?` to the nearest frame that owns the name, and `snapshot` copies a
chain as far as a given frame.
-/

namespace ObjScript

/-- The frame of the built-in names. -/
def FrameId.globals : FrameId := ⟨0⟩

/-- The chain from the frame that lies `distance` steps outward; the outermost frame is the last. -/
def Env.ancestor : Env → Nat → Env
  | env, 0 => env
  | [], _ => []
  | [f], _ => [f]
  | _ :: outer, distance + 1 => Env.ancestor outer distance

namespace Store

/-- What a frame itself makes of a name. -/
def own? (s : Store) (f : FrameId) (name : String) : Option Member :=
  match (s.frame f).bindings.get? name with
  | some v => some (.value v)
  | none =>
    match (s.frame f).receiver with
    | some i => s.member? i name
    | none => none

/-- The frame owns the name. -/
def owns (s : Store) (f : FrameId) (name : String) : Bool :=
  (s.own? f name).isSome

/-- What the nearest owner makes of a name. -/
def lookup? (s : Store) (env : Env) (name : String) : Option Member :=
  env.findSome? (s.own? · name)

/-- The value of a name, null if no frame owns it. -/
def read (env : Env) (name : String) : WithStore Value := do
  match (← get).lookup? env name with
  | some m => memberValue m
  | none => return .null

/-- Binds a name in a frame.  A property that shows through the frame is set on the instance, unless the
frame has a binding of its own. -/
def define (s : Store) (f : FrameId) (name : String) (v : Value) : Store :=
  match (s.frame f).receiver with
  | some i =>
    if !(s.frame f).bindings.has name && (s.object i).properties.has name then s.putProperty i name v
    else s.putBinding f name v
  | none => s.putBinding f name v

/-- Binds a name in the innermost frame of a chain. -/
def defineIn (s : Store) (env : Env) (name : String) (v : Value) : Store :=
  match env with
  | [] => s
  | f :: _ => s.define f name v

/-- Rebinds a name in the nearest frame that owns it, if there is one. -/
def assign? (s : Store) (env : Env) (name : String) (v : Value) : Option Store :=
  (env.find? (s.owns · name)).map fun f => s.define f name v

/-- A frame with the same bindings. -/
def copyFrame (f : FrameId) : WithStore FrameId := do
  newFrame ((← get).frame f)

/-- Copies the frames of a chain up to `stop`, which is shared together with what lies beyond. -/
def snapshot (stop : Option FrameId) : Env → WithStore Env
  | [] => return []
  | f :: outer => do
    if some f = stop then
      return f :: outer
    else
      let outer ← snapshot stop outer
      let copy ← copyFrame f
      return copy :: outer

/-- Gives methods to a class; whether the value is one. -/
def addMethods (methods : Bindings Method) : Value → WithStore Bool
  | .classRef c => do
    modify (·.putMethods c methods)
    return true
  | _ => return false

/-- Gives methods to the class that a name stands for; whether there is one. -/
def implementClass (env : Env) (name : String) (methods : Bindings Method) : WithStore Bool :=
  read env name >>= addMethods methods

end Store

end ObjScript
