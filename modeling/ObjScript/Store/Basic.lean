import ObjScript.Bindings
import ObjScript.Value

/-!
# The store

Frames, arrays, classes and instances.  Each gets a number when it is made and keeps it; nothing is ever
taken away.
-/

namespace ObjScript

/-- A frame: its own bindings and, if it carries a bound method, the instance whose members show through
it. -/
structure Frame where
  bindings : Bindings Value
  receiver : Option InstanceId

/-- A method of a class: a function of the program, or the maker of instances that every class has. -/
inductive Method where
  | closure (f : Closure)
  | alloc

/-- The method is found through the class as well as through its instances. -/
def Method.isStatic : Method → Bool
  | closure f => f.decl.isStatic
  | alloc => true

/-- A class with the classes above it, its superclass first, the initial values of its properties and its
methods. -/
structure Class where
  name : String
  lineage : List ClassId
  properties : Bindings Value
  methods : Bindings Method

/-- An instance of a class with its own values of the properties. -/
structure Instance where
  cls : ClassId
  properties : Bindings Value

/-- All frames, arrays, classes and instances. -/
structure Store where
  frames : Array Frame
  arrays : Array (Array Value)
  classes : Array Class
  instances : Array Instance

/-- Steps that work on the store alone. -/
abbrev WithStore := StateM Store

namespace Store

/-- Nothing has been made. -/
def empty : Store :=
  ⟨#[], #[], #[], #[]⟩

/-- The frame with this number. -/
def frame (s : Store) (f : FrameId) : Frame :=
  s.frames.getD f.index ⟨[], none⟩

/-- The elements of an array. -/
def elements (s : Store) (a : ArrayId) : Array Value :=
  s.arrays.getD a.index #[]

/-- The class with this number. -/
def classOf (s : Store) (c : ClassId) : Class :=
  s.classes.getD c.index ⟨"", [], [], []⟩

/-- The instance with this number. -/
def object (s : Store) (i : InstanceId) : Instance :=
  s.instances.getD i.index ⟨⟨0⟩, []⟩

/-- Makes a frame. -/
def newFrame (frame : Frame) : WithStore FrameId :=
  modifyGet fun s => (⟨s.frames.size⟩, { s with frames := s.frames.push frame })

/-- Makes an array. -/
def newArray (values : Array Value) : WithStore ArrayId :=
  modifyGet fun s => (⟨s.arrays.size⟩, { s with arrays := s.arrays.push values })

/-- Makes a class, which has a maker of instances from the start. -/
def newClass (name : String) (lineage : List ClassId) (properties : Bindings Value) :
    WithStore ClassId :=
  modifyGet fun s =>
    (⟨s.classes.size⟩,
      { s with classes := s.classes.push ⟨name, lineage, properties, [("alloc", .alloc)]⟩ })

/-- Makes an instance. -/
def newInstance (i : Instance) : WithStore InstanceId :=
  modifyGet fun s => (⟨s.instances.size⟩, { s with instances := s.instances.push i })

/-- Binds a name in a frame's own bindings. -/
def putBinding (s : Store) (f : FrameId) (name : String) (v : Value) : Store :=
  { s with frames := s.frames.modify f.index fun frame =>
      { frame with bindings := frame.bindings.put name v } }

/-- Sets a property of an instance. -/
def putProperty (s : Store) (i : InstanceId) (name : String) (v : Value) : Store :=
  { s with instances := s.instances.modify i.index fun o =>
      { o with properties := o.properties.put name v } }

/-- Replaces the elements of an array. -/
def putElements (s : Store) (a : ArrayId) (f : Array Value → Array Value) : Store :=
  { s with arrays := s.arrays.modify a.index f }

/-- Gives a class more methods; the last one of a name counts. -/
def putMethods (s : Store) (c : ClassId) (methods : Bindings Method) : Store :=
  { s with classes := s.classes.modify c.index fun k =>
      { k with methods := k.methods.putAll methods } }

end Store

end ObjScript
