import ObjScript.Proofs.Store.Recoded
import ObjScript.Proofs.Syntax.Depths

/-!
# Stores with other depths

The functions and blocks in a store carry trees, and `withDepths g` changes the depths in all of them.  No
operation on the store looks into a tree: the result on the changed store is the changed result, and the
text of a value stays the same (`Store.text?_withDepths`).
-/

namespace ObjScript

section Definitions

variable (g : Option Nat → Option Nat)

/-- The function with other depths. -/
def Closure.withDepths (f : Closure) : Closure :=
  { f with decl := f.decl.withDepths g }

/-- The block with other depths. -/
def BlockClosure.withDepths (b : BlockClosure) : BlockClosure :=
  { b with body := Stmt.withDepthsList g b.body }

/-- The value with other depths. -/
def Value.withDepths : Value → Value
  | .function f => .function (f.withDepths g)
  | .block b => .block (b.withDepths g)
  | v => v

/-- The method with other depths. -/
def Method.withDepths : Method → Method
  | .closure f => .closure (f.withDepths g)
  | .alloc => .alloc

/-- The frame with other depths. -/
def Frame.withDepths (f : Frame) : Frame :=
  { f with bindings := f.bindings.mapAll (Value.withDepths g) }

/-- The class with other depths. -/
def Class.withDepths (c : Class) : Class :=
  { c with
    properties := c.properties.mapAll (Value.withDepths g)
    methods := c.methods.mapAll (Method.withDepths g) }

/-- The instance with other depths. -/
def Instance.withDepths (i : Instance) : Instance :=
  { i with properties := i.properties.mapAll (Value.withDepths g) }

/-- The store with other depths. -/
def Store.withDepths (s : Store) : Store where
  frames := s.frames.map (Frame.withDepths g)
  arrays := s.arrays.map (Array.map (Value.withDepths g))
  classes := s.classes.map (Class.withDepths g)
  instances := s.instances.map (Instance.withDepths g)

/-- The machine with other depths. -/
def Machine.withDepths (m : Machine) : Machine :=
  { m with store := m.store.withDepths g }

/-- The member with other depths. -/
def Member.withDepths : Member → Member
  | .value v => .value (v.withDepths g)
  | .method f i superclass => .method (f.withDepths g) i superclass

/-- The method that was found, with other depths. -/
def FoundMethod.withDepths (found : FoundMethod) : FoundMethod :=
  { found with method := found.method.withDepths g }

end Definitions

section Identity

private theorem Closure.withDepths_id (f : Closure) : f.withDepths id = f := by
  simp [Closure.withDepths]

@[simp] theorem Value.withDepths_id (v : Value) : v.withDepths id = v := by
  cases v <;> simp [Value.withDepths, Closure.withDepths_id, BlockClosure.withDepths]

private theorem Method.withDepths_id (m : Method) : m.withDepths id = m := by
  cases m <;> simp [Method.withDepths, Closure.withDepths_id]

private theorem map_eq_self {α : Type} {f : α → α} (hf : ∀ a, f a = a) (a : Array α) : a.map f = a := by
  rw [show f = id from funext hf, Array.map_id]

private theorem Store.withDepths_id (s : Store) : s.withDepths id = s := by
  have hv := Bindings.mapAll_id Value.withDepths_id
  have hm := Bindings.mapAll_id Method.withDepths_id
  have hframes := map_eq_self (f := Frame.withDepths id) (fun k => by simp [Frame.withDepths, hv]) s.frames
  have harrays := map_eq_self (map_eq_self Value.withDepths_id) s.arrays
  have hclasses := map_eq_self (f := Class.withDepths id) (fun c => by simp [Class.withDepths, hv, hm]) s.classes
  have hinstances := map_eq_self (f := Instance.withDepths id) (fun i => by simp [Instance.withDepths, hv])
    s.instances
  rw [Store.withDepths, hframes, harrays, hclasses, hinstances]

@[simp] theorem Machine.withDepths_id (m : Machine) : m.withDepths id = m := by
  rw [Machine.withDepths, Store.withDepths_id]

end Identity

/-- Other depths are other trees. -/
def Recoding.depths (g : Option Nat → Option Nat) : Recoding where
  function := FunctionDecl.withDepths g
  params := id
  body := Stmt.withDepthsList g
  name_text d := by rw [d.withDepths_name g]
  isStatic d := d.withDepths_isStatic g

variable {g : Option Nat → Option Nat}

/-! Everything that holds of other trees holds of other depths. -/

namespace Value

@[simp] theorem isTrue_withDepths (v : Value) : (v.withDepths g).isTrue = v.isTrue :=
  isTrue_recoded (r := .depths g) v

@[simp] theorem isNull_withDepths (v : Value) : (v.withDepths g).isNull = v.isNull :=
  isNull_recoded (r := .depths g) v

@[simp] theorem same_withDepths (v w : Value) : (v.withDepths g).same (w.withDepths g) = v.same w :=
  same_recoded (r := .depths g) v w

end Value

@[simp] theorem Method.isStatic_withDepths (m : Method) : (m.withDepths g).isStatic = m.isStatic :=
  Method.isStatic_recoded (r := .depths g) m

namespace Store

@[simp] theorem frame_withDepths (s : Store) (f : FrameId) :
    (s.withDepths g).frame f = (s.frame f).withDepths g :=
  frame_recoded (r := .depths g) s f

@[simp] theorem elements_withDepths (s : Store) (a : ArrayId) :
    (s.withDepths g).elements a = (s.elements a).map (Value.withDepths g) :=
  elements_recoded (r := .depths g) s a

@[simp] theorem putProperty_withDepths (s : Store) (i : InstanceId) (x : String) (v : Value) :
    (s.withDepths g).putProperty i x (v.withDepths g) = (s.putProperty i x v).withDepths g :=
  putProperty_recoded (r := .depths g) s i x v

@[simp] theorem putMethods_withDepths (s : Store) (c : ClassId) (methods : Bindings Method) :
    (s.withDepths g).putMethods c (methods.mapAll (Method.withDepths g)) =
      (s.putMethods c methods).withDepths g :=
  putMethods_recoded (r := .depths g) s c methods

theorem putElements_withDepths (s : Store) (a : ArrayId) {f l : Array Value → Array Value}
    (hf : ∀ b, l (b.map (Value.withDepths g)) = (f b).map (Value.withDepths g)) :
    (s.withDepths g).putElements a l = (s.putElements a f).withDepths g :=
  putElements_recoded (r := .depths g) s a hf

@[simp] theorem line_withDepths (s : Store) (c : ClassId) : (s.withDepths g).line c = s.line c :=
  line_recoded (r := .depths g) s c

theorem findMethod?_withDepths (s : Store) (visible : Method → Bool)
    (hv : ∀ m, visible (m.withDepths g) = visible m) (x : String) (line : List ClassId) :
    (s.withDepths g).findMethod? visible x line = (s.findMethod? visible x line).map (·.withDepths g) :=
  findMethod?_recoded (r := .depths g) s visible hv x line

@[simp] theorem member?_withDepths (s : Store) (i : InstanceId) (x : String) :
    (s.withDepths g).member? i x = (s.member? i x).map (Member.withDepths g) :=
  member?_recoded (r := .depths g) s i x

@[simp] theorem owns_withDepths (s : Store) (f : FrameId) (x : String) :
    (s.withDepths g).owns f x = s.owns f x :=
  owns_recoded (r := .depths g) s f x

@[simp] theorem lookup?_withDepths (s : Store) (env : Env) (x : String) :
    (s.withDepths g).lookup? env x = (s.lookup? env x).map (Member.withDepths g) :=
  lookup?_recoded (r := .depths g) s env x

@[simp] theorem define_withDepths (s : Store) (f : FrameId) (x : String) (v : Value) :
    (s.withDepths g).define f x (v.withDepths g) = (s.define f x v).withDepths g :=
  define_recoded (r := .depths g) s f x v

@[simp] theorem text?_withDepths (s : Store) (v : Value) : (s.withDepths g).text? (v.withDepths g) = s.text? v :=
  text?_recoded (r := .depths g) s v

end Store

end ObjScript
