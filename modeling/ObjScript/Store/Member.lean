import ObjScript.Store.Basic

/-!
# Members of classes and instances

A method is looked for in a class, then in its superclass, and so on upward.  An instance shows its
properties first, then the methods along its class's line, and at last the built-in `init`.  A method
found on an instance still has to be bound: it then runs on a frame that knows `self`, and `super` if the
class that defines it has a superclass.
-/

namespace ObjScript

/-- What a name stands for: a value, or a method that is to be bound to an instance. -/
inductive Member where
  | value (v : Value)
  | method (f : Closure) (self : InstanceId) (superclass : Option ClassId)

/-- A method, the class that defines it, and that class's superclass. -/
structure FoundMethod where
  owner : ClassId
  method : Method
  superclass : Option ClassId

namespace Store

/-- A class and the classes above it. -/
def line (s : Store) (c : ClassId) : List ClassId :=
  c :: (s.classOf c).lineage

/-- The first class of a line that has a method of this name which may be seen. -/
def findMethod? (s : Store) (visible : Method → Bool) (name : String) :
    List ClassId → Option FoundMethod
  | [] => none
  | c :: above =>
    match (s.classOf c).methods.get? name with
    | some m => if visible m then some ⟨c, m, above.head?⟩ else findMethod? s visible name above
    | none => findMethod? s visible name above

/-- The member of an instance with this name. -/
def member? (s : Store) (i : InstanceId) (name : String) : Option Member :=
  match (s.object i).properties.get? name with
  | some v => some (.value v)
  | none =>
    match s.findMethod? (fun _ => true) name (s.line (s.object i).cls) with
    | some ⟨_, .closure f, superclass⟩ => some (.method f i superclass)
    | some ⟨owner, .alloc, _⟩ => some (.value (.native (.alloc owner)))
    | none => if name = "init" then some (.value (.native (.init i))) else none

/-- The frame that a method bound to an instance runs on. -/
def boundFrame (i : InstanceId) (superclass : Option ClassId) : Frame where
  bindings := ("self", .object i) :: (superclass.map fun c => ("super", .classRef c)).toList
  receiver := some i

/-- Binds a method to an instance. -/
def bindMethod (f : Closure) (i : InstanceId) (superclass : Option ClassId) : WithStore Value := do
  let frame ← newFrame (boundFrame i superclass)
  return .function { f with env := frame :: f.env }

/-- Binds a method to a class, which is its `self`. -/
def bindStatic (f : Closure) (c : ClassId) : WithStore Value := do
  let frame ← newFrame ⟨[("self", .classRef c)], none⟩
  return .function { f with env := frame :: f.env }

/-- The value of a member. -/
def memberValue : Member → WithStore Value
  | .value v => return v
  | .method f i superclass => bindMethod f i superclass

/-- The initial values of all properties along a line; the lower class counts. -/
def initialProperties (s : Store) (line : List ClassId) : Bindings Value :=
  line.foldr (fun c acc => Bindings.putAll acc (s.classOf c).properties) []

/-- Makes an instance of a class with the initial values of its properties. -/
def allocate (c : ClassId) : WithStore Value := do
  let s ← get
  let i ← newInstance ⟨c, s.initialProperties (s.line c)⟩
  return .object i

end Store

end ObjScript
