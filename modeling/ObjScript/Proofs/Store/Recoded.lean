import Mathlib.Logic.Basic
import ObjScript.Machine

/-!
# Stores with other code

The functions and blocks in a store carry trees, and a `Recoding` replaces these trees by others.  Functions keep
their names, and static ones stay static.  No operation on the store looks at more of a tree than this: the result on
the changed store is the changed result, and the text of a value stays the same (`Store.text?_recoded`).
-/

namespace ObjScript

namespace Bindings

variable {α β : Type}

/-- The bindings with each thing replaced by what `f` makes of it. -/
def mapAll (f : α → β) (b : Bindings α) : Bindings β :=
  b.map fun q => (q.1, f q.2)

@[simp] theorem get?_mapAll (f : α → β) (b : Bindings α) (x : String) :
    (b.mapAll f).get? x = (b.get? x).map f := by
  induction b with
  | nil => rfl
  | cons q rest ih =>
    obtain ⟨key, a⟩ := q
    change (if key = x then some (f a) else (mapAll f rest).get? x) =
      (if key = x then some a else get? rest x).map f
    rw [ih]
    split <;> rfl

@[simp] theorem has_mapAll (f : α → β) (b : Bindings α) (x : String) : (b.mapAll f).has x = b.has x := by
  simp [has]

@[simp] theorem put_mapAll (f : α → β) (b : Bindings α) (x : String) (a : α) :
    (b.mapAll f).put x (f a) = (b.put x a).mapAll f := by
  induction b with
  | nil => rfl
  | cons q rest ih =>
    obtain ⟨key, a'⟩ := q
    change (if key = x then (key, f a) :: mapAll f rest else (key, f a') :: (mapAll f rest).put x (f a)) =
      mapAll f (if key = x then (key, a) :: rest else (key, a') :: put rest x a)
    rw [ih]
    split <;> rfl

@[simp] theorem putAll_mapAll (f : α → β) (b more : Bindings α) :
    (b.mapAll f).putAll (more.mapAll f) = (b.putAll more).mapAll f := by
  induction more generalizing b with
  | nil => rfl
  | cons q rest ih =>
    change ((b.mapAll f).put q.1 (f q.2)).putAll (mapAll f rest) = mapAll f ((b.put q.1 q.2).putAll rest)
    rw [put_mapAll, ih]

theorem mapAll_id {f : α → α} (hf : ∀ a, f a = a) (b : Bindings α) : b.mapAll f = b := by
  simp [mapAll, hf]

end Bindings

theorem getD_map {α β : Type} (f : α → β) (a : Array α) (i : Nat) {d : α} {d' : β} (hd : f d = d') :
    (a.map f).getD i d' = f (a.getD i d) := by
  rw [Array.getD_eq_getD_getElem?, Array.getD_eq_getD_getElem?, Array.getElem?_map, ← hd]
  cases a[i]? <;> rfl

private theorem map_modify {α β : Type} (f : α → β) (a : Array α) (i : Nat) {k : α → α} {l : β → β}
    (hk : ∀ x, l (f x) = f (k x)) : (a.map f).modify i l = (a.modify i k).map f := by
  apply Array.ext_getElem?
  intro j
  rw [Array.getElem?_modify, Array.getElem?_map, Array.getElem?_map, Array.getElem?_modify]
  split
  · cases a[j]? <;> simp [hk]
  · rfl

/-- A change of the trees that functions and blocks carry. -/
structure Recoding where
  function : FunctionDecl → FunctionDecl
  params : List Param → List Param
  body : List Stmt → List Stmt
  /-- Functions keep their names. -/
  name_text : ∀ d, (function d).name.text = d.name.text
  /-- Static functions stay static. -/
  isStatic : ∀ d, (function d).isStatic = d.isStatic

section Definitions

variable (r : Recoding)

/-- The function with another tree. -/
def Closure.recoded (f : Closure) : Closure :=
  { f with decl := r.function f.decl }

/-- The block with another tree. -/
def BlockClosure.recoded (b : BlockClosure) : BlockClosure :=
  ⟨r.params b.params, r.body b.body, b.env⟩

/-- The value with other trees. -/
def Value.recoded : Value → Value
  | .function f => .function (f.recoded r)
  | .block b => .block (b.recoded r)
  | v => v

/-- The method with another tree. -/
def Method.recoded : Method → Method
  | .closure f => .closure (f.recoded r)
  | .alloc => .alloc

/-- The frame with other trees. -/
def Frame.recoded (f : Frame) : Frame :=
  { f with bindings := f.bindings.mapAll (Value.recoded r) }

/-- The class with other trees. -/
def Class.recoded (c : Class) : Class :=
  { c with
    properties := c.properties.mapAll (Value.recoded r)
    methods := c.methods.mapAll (Method.recoded r) }

/-- The instance with other trees. -/
def Instance.recoded (i : Instance) : Instance :=
  { i with properties := i.properties.mapAll (Value.recoded r) }

/-- The store with other trees. -/
def Store.recoded (s : Store) : Store where
  frames := s.frames.map (Frame.recoded r)
  arrays := s.arrays.map (Array.map (Value.recoded r))
  classes := s.classes.map (Class.recoded r)
  instances := s.instances.map (Instance.recoded r)

/-- The member with other trees. -/
def Member.recoded : Member → Member
  | .value v => .value (v.recoded r)
  | .method f i superclass => .method (f.recoded r) i superclass

/-- The method that was found, with another tree. -/
def FoundMethod.recoded (found : FoundMethod) : FoundMethod :=
  { found with method := found.method.recoded r }

end Definitions

variable {r : Recoding}

namespace Value

@[simp] theorem isTrue_recoded (v : Value) : (v.recoded r).isTrue = v.isTrue := by
  cases v <;> rfl

@[simp] theorem isNull_recoded (v : Value) : (v.recoded r).isNull = v.isNull := by
  cases v <;> rfl

@[simp] theorem same_recoded (v w : Value) : (v.recoded r).same (w.recoded r) = v.same w := by
  cases v <;> cases w <;> rfl

end Value

@[simp] theorem Method.isStatic_recoded (m : Method) : (m.recoded r).isStatic = m.isStatic := by
  cases m with
  | alloc => rfl
  | closure f => exact r.isStatic f.decl

namespace Store

@[simp] theorem frame_recoded (s : Store) (f : FrameId) :
    (s.recoded r).frame f = (s.frame f).recoded r :=
  getD_map (Frame.recoded r) s.frames f.index rfl

@[simp] theorem elements_recoded (s : Store) (a : ArrayId) :
    (s.recoded r).elements a = (s.elements a).map (Value.recoded r) :=
  getD_map (Array.map (Value.recoded r)) s.arrays a.index (by simp)

@[simp] theorem classOf_recoded (s : Store) (c : ClassId) :
    (s.recoded r).classOf c = (s.classOf c).recoded r :=
  getD_map (Class.recoded r) s.classes c.index rfl

@[simp] theorem object_recoded (s : Store) (i : InstanceId) :
    (s.recoded r).object i = (s.object i).recoded r :=
  getD_map (Instance.recoded r) s.instances i.index rfl

@[simp] theorem putBinding_recoded (s : Store) (f : FrameId) (x : String) (v : Value) :
    (s.recoded r).putBinding f x (v.recoded r) = (s.putBinding f x v).recoded r := by
  have h := map_modify (Frame.recoded r) s.frames f.index
    (k := fun k => { k with bindings := k.bindings.put x v })
    (l := fun k => { k with bindings := k.bindings.put x (v.recoded r) }) fun k => by simp [Frame.recoded]
  exact congrArg (fun frames => { s.recoded r with frames := frames }) h

@[simp] theorem putProperty_recoded (s : Store) (i : InstanceId) (x : String) (v : Value) :
    (s.recoded r).putProperty i x (v.recoded r) = (s.putProperty i x v).recoded r := by
  have h := map_modify (Instance.recoded r) s.instances i.index
    (k := fun o => { o with properties := o.properties.put x v })
    (l := fun o => { o with properties := o.properties.put x (v.recoded r) })
    fun o => by simp [Instance.recoded]
  exact congrArg (fun instances => { s.recoded r with instances := instances }) h

@[simp] theorem putMethods_recoded (s : Store) (c : ClassId) (methods : Bindings Method) :
    (s.recoded r).putMethods c (methods.mapAll (Method.recoded r)) =
      (s.putMethods c methods).recoded r := by
  have h := map_modify (Class.recoded r) s.classes c.index
    (k := fun k => { k with methods := k.methods.putAll methods })
    (l := fun k => { k with methods := k.methods.putAll (methods.mapAll (Method.recoded r)) })
    fun k => by simp [Class.recoded]
  exact congrArg (fun classes => { s.recoded r with classes := classes }) h

theorem putElements_recoded (s : Store) (a : ArrayId) {f l : Array Value → Array Value}
    (hf : ∀ b, l (b.map (Value.recoded r)) = (f b).map (Value.recoded r)) :
    (s.recoded r).putElements a l = (s.putElements a f).recoded r := by
  exact congrArg (fun arrays => { s.recoded r with arrays := arrays })
    (map_modify (Array.map (Value.recoded r)) s.arrays a.index hf)

@[simp] theorem line_recoded (s : Store) (c : ClassId) : (s.recoded r).line c = s.line c := by
  simp [line, Class.recoded]

theorem findMethod?_recoded (s : Store) (visible : Method → Bool)
    (hv : ∀ m, visible (m.recoded r) = visible m) (x : String) (line : List ClassId) :
    (s.recoded r).findMethod? visible x line = (s.findMethod? visible x line).map (·.recoded r) := by
  induction line with
  | nil => rfl
  | cons c above ih =>
    have hget : ((s.recoded r).classOf c).methods.get? x =
        ((s.classOf c).methods.get? x).map (Method.recoded r) := by
      simp [Class.recoded]
    unfold findMethod?
    rw [hget]
    cases (s.classOf c).methods.get? x with
    | none => exact ih
    | some m =>
      -- whether a method is visible does not depend on its tree
      simp only [Option.map_some, hv]
      split
      · rfl
      · exact ih

@[simp] theorem member?_recoded (s : Store) (i : InstanceId) (x : String) :
    (s.recoded r).member? i x = (s.member? i x).map (Member.recoded r) := by
  have hget : ((s.recoded r).object i).properties.get? x =
      ((s.object i).properties.get? x).map (Value.recoded r) := by
    simp [Instance.recoded]
  have hline : (s.recoded r).line ((s.recoded r).object i).cls = s.line (s.object i).cls := by
    simp [Instance.recoded]
  unfold member?
  rw [hget, hline, findMethod?_recoded s _ (fun _ => rfl)]
  cases (s.object i).properties.get? x with
  | some v => rfl
  | none =>
    cases s.findMethod? (fun _ => true) x (s.line (s.object i).cls) with
    | some found =>
      obtain ⟨owner, m, superclass⟩ := found
      cases m <;> rfl
    | none =>
      simp only [Option.map_none]
      split <;> rfl

@[simp] theorem own?_recoded (s : Store) (f : FrameId) (x : String) :
    (s.recoded r).own? f x = (s.own? f x).map (Member.recoded r) := by
  have hget : ((s.recoded r).frame f).bindings.get? x =
      ((s.frame f).bindings.get? x).map (Value.recoded r) := by
    simp [Frame.recoded]
  have hreceiver : ((s.recoded r).frame f).receiver = (s.frame f).receiver := by
    simp [Frame.recoded]
  unfold own?
  rw [hget, hreceiver]
  cases (s.frame f).bindings.get? x with
  | some v => rfl
  | none =>
    cases (s.frame f).receiver with
    | none => rfl
    | some i => exact member?_recoded s i x

@[simp] theorem owns_recoded (s : Store) (f : FrameId) (x : String) :
    (s.recoded r).owns f x = s.owns f x := by
  simp [owns]

@[simp] theorem lookup?_recoded (s : Store) (env : Env) (x : String) :
    (s.recoded r).lookup? env x = (s.lookup? env x).map (Member.recoded r) := by
  unfold lookup?
  induction env with
  | nil => rfl
  | cons f env ih =>
    rw [List.findSome?_cons, List.findSome?_cons, own?_recoded]
    cases s.own? f x with
    | none => exact ih
    | some m => rfl

@[simp] theorem define_recoded (s : Store) (f : FrameId) (x : String) (v : Value) :
    (s.recoded r).define f x (v.recoded r) = (s.define f x v).recoded r := by
  have hreceiver : ((s.recoded r).frame f).receiver = (s.frame f).receiver := by
    simp [Frame.recoded]
  unfold define
  rw [hreceiver]
  cases (s.frame f).receiver with
  | none => exact putBinding_recoded s f x v
  | some i =>
    simp only [frame_recoded, object_recoded, Frame.recoded, Instance.recoded, Bindings.has_mapAll]
    split
    · exact putProperty_recoded s i x v
    · exact putBinding_recoded s f x v

@[simp] theorem defineIn_recoded (s : Store) (env : Env) (x : String) (v : Value) :
    (s.recoded r).defineIn env x (v.recoded r) = (s.defineIn env x v).recoded r := by
  cases env with
  | nil => rfl
  | cons f env => exact define_recoded s f x v

@[simp] theorem assign?_recoded (s : Store) (env : Env) (x : String) (v : Value) :
    (s.recoded r).assign? env x (v.recoded r) = (s.assign? env x v).map (Store.recoded r) := by
  unfold assign?
  simp only [owns_recoded, define_recoded]
  cases env.find? (s.owns · x) <;> rfl

@[simp] theorem initialProperties_recoded (s : Store) (line : List ClassId) :
    (s.recoded r).initialProperties line = (s.initialProperties line).mapAll (Value.recoded r) := by
  induction line with
  | nil => rfl
  | cons c line ih =>
    change ((s.recoded r).initialProperties line).putAll ((s.recoded r).classOf c).properties =
      ((s.initialProperties line).putAll (s.classOf c).properties).mapAll (Value.recoded r)
    rw [ih, classOf_recoded]
    exact Bindings.putAll_mapAll _ _ _

private theorem textUpTo_recoded (s : Store) (n : Nat) (v : Value) :
    (s.recoded r).textUpTo n (v.recoded r) = s.textUpTo n v := by
  induction n generalizing v with
  | zero => cases v <;> simp [Value.recoded, textUpTo, Closure.recoded, r.name_text, Class.recoded, Instance.recoded]
  | succ n ih =>
    -- only an array shows further values
    cases v with
    | array a =>
      have hparts : ((s.recoded r).elements a).toList.mapM ((s.recoded r).textUpTo n) =
          (s.elements a).toList.mapM (s.textUpTo n) := by
        rw [elements_recoded, Array.toList_map, List.mapM_map]
        congr 1
        exact funext ih
      simp only [Value.recoded, textUpTo, hparts]
    | _ => simp [Value.recoded, textUpTo, Closure.recoded, r.name_text, Class.recoded, Instance.recoded]

@[simp] theorem text?_recoded (s : Store) (v : Value) : (s.recoded r).text? (v.recoded r) = s.text? v := by
  have hsize : (s.recoded r).arrays.size = s.arrays.size := by simp [Store.recoded]
  unfold text?
  rw [hsize, textUpTo_recoded]

/-! ### Steps on the store -/

section Steps

variable {α β γ δ : Type}

/-- The steps do the same, up to the trees in the store and in their results. -/
def Recodes (r : Recoding) (f : α → β) (t : WithStore α) (u : WithStore β) : Prop :=
  ∀ s : Store, u.run (s.recoded r) = (f (t.run s).1, (t.run s).2.recoded r)

namespace Recodes

variable {f : α → β} {h : γ → δ} {t : WithStore α} {u : WithStore β}

private theorem pure {a : α} {b : β} (hab : b = f a) : Recodes r f (Pure.pure a) (Pure.pure b) := by
  intro s
  rw [hab]
  rfl

private theorem bind {k : α → WithStore γ} {l : β → WithStore δ} (ht : Recodes r f t u)
    (hk : ∀ a, Recodes r h (k a) (l (f a))) : Recodes r h (t >>= k) (u >>= l) := by
  intro s
  change (l (u.run (s.recoded r)).1).run (u.run (s.recoded r)).2 = _
  rw [ht s]
  exact hk (t.run s).1 (t.run s).2

/-- A step that looks at the store. -/
private theorem look {k : Store → WithStore γ} {l : Store → WithStore δ}
    (hk : ∀ s, Recodes r h (k s) (l (s.recoded r))) :
    Recodes r h (get >>= k) (get >>= l) :=
  fun s => hk s s

end Recodes

theorem recodes_newFrame (frame : Frame) : Recodes r id (newFrame frame) (newFrame (frame.recoded r)) := by
  intro s
  have hsize : (s.recoded r).frames.size = s.frames.size := Array.size_map
  have hpush : (s.recoded r).frames.push (frame.recoded r) = (s.frames.push frame).map (Frame.recoded r) :=
    Array.map_push.symm
  exact congrArg₂ Prod.mk (congrArg FrameId.mk hsize)
    (congrArg (fun frames => { s.recoded r with frames := frames }) hpush)

theorem recodes_newArray (values : Array Value) :
    Recodes r id (newArray values) (newArray (values.map (Value.recoded r))) := by
  intro s
  have hsize : (s.recoded r).arrays.size = s.arrays.size := Array.size_map
  have hpush : (s.recoded r).arrays.push (values.map (Value.recoded r)) =
      (s.arrays.push values).map (Array.map (Value.recoded r)) := Array.map_push.symm
  exact congrArg₂ Prod.mk (congrArg ArrayId.mk hsize)
    (congrArg (fun arrays => { s.recoded r with arrays := arrays }) hpush)

theorem recodes_newClass (name : String) (lineage : List ClassId) (properties : Bindings Value) :
    Recodes r id (newClass name lineage properties)
      (newClass name lineage (properties.mapAll (Value.recoded r))) := by
  intro s
  have hsize : (s.recoded r).classes.size = s.classes.size := Array.size_map
  have hpush : (s.recoded r).classes.push
      ⟨name, lineage, properties.mapAll (Value.recoded r), [("alloc", .alloc)]⟩ =
      (s.classes.push ⟨name, lineage, properties, [("alloc", .alloc)]⟩).map (Class.recoded r) := by
    rw [Array.map_push]
    rfl
  exact congrArg₂ Prod.mk (congrArg ClassId.mk hsize)
    (congrArg (fun classes => { s.recoded r with classes := classes }) hpush)

private theorem recodes_newInstance (i : Instance) : Recodes r id (newInstance i) (newInstance (i.recoded r)) := by
  intro s
  have hsize : (s.recoded r).instances.size = s.instances.size := Array.size_map
  have hpush : (s.recoded r).instances.push (i.recoded r) = (s.instances.push i).map (Instance.recoded r) :=
    Array.map_push.symm
  exact congrArg₂ Prod.mk (congrArg InstanceId.mk hsize)
    (congrArg (fun instances => { s.recoded r with instances := instances }) hpush)

theorem recodes_allocate (c : ClassId) : Recodes r (Value.recoded r) (allocate c) (allocate c) := by
  refine .look fun s => ?_
  rw [line_recoded, initialProperties_recoded]
  exact (recodes_newInstance ⟨c, s.initialProperties (s.line c)⟩).bind fun i => .pure rfl

private theorem boundFrame_recoded (i : InstanceId) (superclass : Option ClassId) :
    (boundFrame i superclass).recoded r = boundFrame i superclass := by
  cases superclass <;> rfl

theorem recodes_bindMethod (f : Closure) (i : InstanceId) (superclass : Option ClassId) :
    Recodes r (Value.recoded r) (bindMethod f i superclass) (bindMethod (f.recoded r) i superclass) := by
  have hframe := recodes_newFrame (r := r) (boundFrame i superclass)
  rw [boundFrame_recoded] at hframe
  exact hframe.bind fun frame => .pure rfl

theorem recodes_bindStatic (f : Closure) (c : ClassId) :
    Recodes r (Value.recoded r) (bindStatic f c) (bindStatic (f.recoded r) c) :=
  (recodes_newFrame ⟨[("self", .classRef c)], none⟩).bind fun _ => .pure rfl

theorem recodes_memberValue (m : Member) :
    Recodes r (Value.recoded r) (memberValue m) (memberValue (m.recoded r)) := by
  cases m with
  | value v => exact .pure rfl
  | method f i superclass => exact recodes_bindMethod f i superclass

theorem recodes_read (env : Env) (x : String) : Recodes r (Value.recoded r) (read env x) (read env x) := by
  refine .look fun s => ?_
  rw [lookup?_recoded]
  cases s.lookup? env x with
  | none => exact .pure rfl
  | some m => exact recodes_memberValue m

theorem recodes_snapshot (stop : Option FrameId) (env : Env) :
    Recodes r id (snapshot stop env) (snapshot stop env) := by
  induction env with
  | nil => exact .pure rfl
  | cons f outer ih =>
    have hcopy : Recodes r id (copyFrame f) (copyFrame f) := by
      refine .look fun s => ?_
      rw [frame_recoded]
      exact recodes_newFrame (s.frame f)
    unfold snapshot
    split
    · exact .pure rfl
    · exact ih.bind fun outer => hcopy.bind fun copy => .pure rfl

end Steps

end Store

end ObjScript
