import ObjScript.Eval.Native
import ObjScript.Eval.Operator
import ObjScript.Text.Character

/-!
# Members, elements and classes

Looking up a member of a value, reading and writing the elements of arrays, and what the statements about
classes do to the store.  Through a class only its static methods are seen, through `super` all of them;
what is not there gives null and is no failure.
-/

namespace ObjScript.Run

/-- The value of a method found through a class. -/
def staticMethod (found : Option FoundMethod) (c : ClassId) : Run Value :=
  match found with
  | some ⟨_, .closure f, _⟩ => onStore (Store.bindStatic f c)
  | some ⟨owner, .alloc, _⟩ => return .native (.alloc owner)
  | none => return .null

/-- The member of a class.  Only static methods are found, and `self` is then the class. -/
def classMember (c : ClassId) (name : String) : Run Value := do
  let s := (← get).store
  staticMethod (s.findMethod? Method.isStatic name (s.line c)) c

/-- The method of the class that `super` stands for.  Every method is found. -/
def superMethod (c : ClassId) (name : String) : Run (Option FoundMethod) := do
  let s := (← get).store
  return s.findMethod? (fun _ => true) name (s.line c)

/-- The method that was found through `super`, bound to the running `self` if that is an instance.  The
superclass of the class that defines it is then its `super`.  Past the topmost class there is still the
built-in `init`. -/
def ofSuper (found : Option FoundMethod) (c : ClassId) (name : String) (self : Value) : Run Value :=
  match self with
  | .object i =>
    match found with
    | some ⟨_, .closure f, superclass⟩ => onStore (Store.bindMethod f i superclass)
    | some ⟨owner, .alloc, _⟩ => return .native (.alloc owner)
    | none => return if name = "init" then .native (.init i) else .null
  | _ => staticMethod found c

/-- The member of an instance. -/
def instanceMember (i : InstanceId) (name : String) : Run Value := do
  match (← get).store.member? i name with
  | some m => onStore (Store.memberValue m)
  | none => return .null

/-- The place of an element among `size` ones: the integer part of a number. -/
def place? (v : Value) (size : Nat) : Option Nat :=
  match v with
  | .number x =>
    match Number.truncate? x with
    | some i => if 0 ≤ i ∧ i.toNat < size then some i.toNat else none
    | none => none
  | _ => none

/-- The element of an array; null outside of it. -/
def elementOf (s : Store) (a : ArrayId) (place : Value) : Value :=
  let elements := s.elements a
  match place? place elements.size with
  | some i => elements.getD i .null
  | none => .null

/-- The element of an array or the character of a string. -/
def element (v place : Value) : Run Value := do
  match v with
  | .array a => return elementOf (← get).store a place
  | .string s =>
    match place? place s.length with
    | some i => return ((Text.charAt? s i).map fun c => Value.string (String.ofList [c])).getD .null
    | none => return .null
  | _ => return .null

/-- Puts a value into an array; outside of it nothing happens. -/
def setElement (a : ArrayId) (place v : Value) : Run Unit := do
  match place? place ((← get).store.elements a).size with
  | some i => modifyStore (·.putElements a (·.setIfInBounds i v))
  | none => debug .objects do return "array write at " ++ (← text place) ++ " out of range"

/-- The initial value of a property without one of its own. -/
def defaultValue : TypeExpr → Value
  | .named ⟨.keyword .intType, _, _⟩ => .number 0
  | .named ⟨.keyword .stringType, _, _⟩ => .string ""
  | .named ⟨.classIdent, "NSString", _⟩ => .string ""
  | .named ⟨.classIdent, "NSInteger", _⟩ => .number 0
  | _ => .null

/-- The superclass that a value names; a value that is no class counts as none. -/
def superclassOf (name : String) : Value → Run (List ClassId)
  | .classRef c => do return (← get).store.line c
  | v => do
    debug .objects do
      return "superclass of " ++ name ++ " is not a class: " ++ (← text v)
    return []

/-- Binds a new class to its name. -/
def makeClass (env : Env) (name : String) (lineage : List ClassId) (properties : Bindings Value) :
    Run Unit := do
  let c ← onStore (Store.newClass name lineage properties)
  modifyStore fun s => (s.assign? env name (.classRef c)).getD s

end ObjScript.Run
