import ObjScript.Machine

/-!
# What holds of all values of a store

`Store.Holds P M` says that `P` holds of every value and `M` of every method in a store.  Everything that a
step takes out of such a store has the property, and a step that puts in what has it keeps it.
-/

namespace ObjScript

/-- What is bound has the property. -/
def Bindings.All {α : Type} (P : α → Prop) (b : Bindings α) : Prop :=
  ∀ q ∈ b, P q.2

namespace Bindings

variable {α : Type} {P Q : α → Prop} {b more : Bindings α} {x : String} {a : α}

theorem all_nil : Bindings.All P [] :=
  List.forall_mem_nil _

theorem All.mono (h : b.All P) (hPQ : ∀ a, P a → Q a) : b.All Q :=
  fun q hq => hPQ q.2 (h q hq)

theorem All.get? (h : b.All P) (hx : b.get? x = some a) : P a := by
  induction b with
  | nil => cases hx
  | cons q rest ih =>
    obtain ⟨key, a'⟩ := q
    obtain ⟨hq, hrest⟩ := List.forall_mem_cons.1 h
    unfold Bindings.get? at hx
    split at hx
    · cases hx
      exact hq
    · exact ih hrest hx

theorem All.put (h : b.All P) (ha : P a) : (b.put x a).All P := by
  induction b with
  | nil => exact List.forall_mem_cons.2 ⟨ha, List.forall_mem_nil _⟩
  | cons q rest ih =>
    obtain ⟨key, a'⟩ := q
    obtain ⟨hq, hrest⟩ := List.forall_mem_cons.1 h
    unfold Bindings.put
    split
    · exact List.forall_mem_cons.2 ⟨ha, hrest⟩
    · exact List.forall_mem_cons.2 ⟨hq, ih hrest⟩

theorem All.putAll (h : b.All P) (hmore : more.All P) : (b.putAll more).All P := by
  induction more generalizing b with
  | nil => exact h
  | cons q rest ih =>
    obtain ⟨hq, hrest⟩ := List.forall_mem_cons.1 hmore
    exact ih (h.put hq) hrest

end Bindings

/-- The properties hold of every value and of every method in the store. -/
structure Store.Holds (P : Value → Prop) (M : Method → Prop) (s : Store) : Prop where
  frames : ∀ f ∈ s.frames, f.bindings.All P
  arrays : ∀ a ∈ s.arrays, ∀ v ∈ a, P v
  properties : ∀ c ∈ s.classes, c.properties.All P
  methods : ∀ c ∈ s.classes, c.methods.All M
  instances : ∀ i ∈ s.instances, i.properties.All P

theorem forall_mem_modify {α : Type} {Q : α → Prop} {a : Array α} {i : Nat} {f : α → α} (h : ∀ x ∈ a, Q x)
    (hf : ∀ x ∈ a, Q (f x)) : ∀ x ∈ a.modify i f, Q x := by
  intro x hx
  obtain ⟨j, hj⟩ := Array.mem_iff_getElem?.1 hx
  rw [Array.getElem?_modify] at hj
  split at hj
  · obtain ⟨y, hy, rfl⟩ := Option.map_eq_some_iff.1 hj
    exact hf y (Array.mem_of_getElem? hy)
  · exact h x (Array.mem_of_getElem? hj)

theorem forall_mem_push {α : Type} {Q : α → Prop} {a : Array α} {y : α} (h : ∀ x ∈ a, Q x) (hy : Q y) :
    ∀ x ∈ a.push y, Q x := by
  intro x hx
  rcases Array.mem_push.1 hx with hx | rfl
  · exact h x hx
  · exact hy

theorem getD_of_forall {α : Type} {Q : α → Prop} {a : Array α} {d : α} (h : ∀ x ∈ a, Q x) (hd : Q d) (i : Nat) :
    Q (a.getD i d) := by
  rw [Array.getD_eq_getD_getElem?]
  cases hi : a[i]? with
  | none => exact hd
  | some x => exact h x (Array.mem_of_getElem? hi)

namespace Store.Holds

variable {P P' : Value → Prop} {M M' : Method → Prop} {s : Store}

theorem mono (h : s.Holds P M) (hP : ∀ v, P v → P' v) (hM : ∀ m, M m → M' m) : s.Holds P' M' where
  frames f hf := (h.frames f hf).mono hP
  arrays a ha v hv := hP v (h.arrays a ha v hv)
  properties c hc := (h.properties c hc).mono hP
  methods c hc := (h.methods c hc).mono hM
  instances i hi := (h.instances i hi).mono hP

theorem frame (h : s.Holds P M) (f : FrameId) : (s.frame f).bindings.All P :=
  getD_of_forall (Q := fun f : Frame => f.bindings.All P) h.frames Bindings.all_nil f.index

theorem elements (h : s.Holds P M) (a : ArrayId) : ∀ v ∈ s.elements a, P v :=
  getD_of_forall (Q := fun a : Array Value => ∀ v ∈ a, P v) h.arrays (by simp) a.index

theorem object (h : s.Holds P M) (i : InstanceId) : (s.object i).properties.All P :=
  getD_of_forall (Q := fun i : Instance => i.properties.All P) h.instances Bindings.all_nil i.index

private theorem classProperties (h : s.Holds P M) (c : ClassId) : (s.classOf c).properties.All P :=
  getD_of_forall (Q := fun c : Class => c.properties.All P) h.properties Bindings.all_nil c.index

theorem classMethods (h : s.Holds P M) (c : ClassId) : (s.classOf c).methods.All M :=
  getD_of_forall (Q := fun c : Class => c.methods.All M) h.methods Bindings.all_nil c.index

theorem pushFrame (h : s.Holds P M) {f : Frame} (hf : f.bindings.All P) :
    Store.Holds P M { s with frames := s.frames.push f } :=
  { h with frames := forall_mem_push h.frames hf }

theorem pushArray (h : s.Holds P M) {a : Array Value} (ha : ∀ v ∈ a, P v) :
    Store.Holds P M { s with arrays := s.arrays.push a } :=
  { h with arrays := forall_mem_push h.arrays ha }

theorem pushClass (h : s.Holds P M) {c : Class} (hp : c.properties.All P) (hm : c.methods.All M) :
    Store.Holds P M { s with classes := s.classes.push c } :=
  { h with properties := forall_mem_push h.properties hp, methods := forall_mem_push h.methods hm }

theorem pushInstance (h : s.Holds P M) {i : Instance} (hi : i.properties.All P) :
    Store.Holds P M { s with instances := s.instances.push i } :=
  { h with instances := forall_mem_push h.instances hi }

theorem putBinding (h : s.Holds P M) {v : Value} (hv : P v) (f : FrameId) (x : String) :
    (s.putBinding f x v).Holds P M := by
  have hframes := forall_mem_modify (i := f.index) (f := fun k : Frame => { k with bindings := k.bindings.put x v })
    h.frames fun k hk => (h.frames k hk).put hv
  exact { h with frames := hframes }

theorem putProperty (h : s.Holds P M) {v : Value} (hv : P v) (i : InstanceId) (x : String) :
    (s.putProperty i x v).Holds P M := by
  have hinstances := forall_mem_modify (i := i.index)
    (f := fun o : Instance => { o with properties := o.properties.put x v })
    h.instances fun o ho => (h.instances o ho).put hv
  exact { h with instances := hinstances }

theorem putElements (h : s.Holds P M) (a : ArrayId) {f : Array Value → Array Value}
    (hf : ∀ b, (∀ v ∈ b, P v) → ∀ v ∈ f b, P v) : (s.putElements a f).Holds P M :=
  { h with arrays := forall_mem_modify h.arrays fun b hb => hf b (h.arrays b hb) }

theorem putMethods (h : s.Holds P M) (c : ClassId) {methods : Bindings Method} (hm : methods.All M) :
    (s.putMethods c methods).Holds P M := by
  let f := fun k : Class => { k with methods := k.methods.putAll methods }
  have hproperties := forall_mem_modify (i := c.index) (f := f) h.properties fun k hk => h.properties k hk
  have hmethods := forall_mem_modify (i := c.index) (f := f) h.methods fun k hk => (h.methods k hk).putAll hm
  exact { h with properties := hproperties, methods := hmethods }

theorem define (h : s.Holds P M) {v : Value} (hv : P v) (f : FrameId) (x : String) :
    (s.define f x v).Holds P M := by
  unfold Store.define
  split
  · split
    · exact h.putProperty hv _ x
    · exact h.putBinding hv f x
  · exact h.putBinding hv f x

theorem findMethod? (h : s.Holds P M) {visible : Method → Bool} {x : String} {line : List ClassId}
    {found : FoundMethod} (hf : s.findMethod? visible x line = some found) : M found.method := by
  induction line with
  | nil => cases hf
  | cons c above ih =>
    unfold Store.findMethod? at hf
    split at hf
    · next m hm =>
      split at hf
      · cases hf
        exact (h.classMethods c).get? hm
      · exact ih hf
    · exact ih hf

theorem initialProperties (h : s.Holds P M) (line : List ClassId) : (s.initialProperties line).All P := by
  induction line with
  | nil => exact Bindings.all_nil
  | cons c line ih => exact ih.putAll (h.classProperties c)

end Store.Holds

/-- What is found under a name has the property: a value, or a method that is still to be bound. -/
def Member.Holds (P : Value → Prop) (M : Method → Prop) : Member → Prop
  | .value v => P v
  | .method f _ _ => M (.closure f)

/-- The value contains no function of the program. -/
def Value.IsPlain : Value → Prop
  | .function _ | .block _ => False
  | _ => True

/-- The property holds of all values that contain no function of the program. -/
def HoldsOfPlain (P : Value → Prop) : Prop :=
  ∀ v : Value, v.IsPlain → P v

namespace Store.Holds

variable {P : Value → Prop} {M : Method → Prop} {s : Store}

theorem member? (h : s.Holds P M) (hP : HoldsOfPlain P) {i : InstanceId} {x : String} {m : Member}
    (hm : s.member? i x = some m) : m.Holds P M := by
  unfold Store.member? at hm
  split at hm
  · next v hv =>
    cases hm
    exact (h.object i).get? hv
  · split at hm
    · next hf =>
      cases hm
      exact h.findMethod? hf
    · cases hm
      exact hP _ trivial
    · split at hm
      · cases hm
        exact hP _ trivial
      · cases hm

private theorem own? (h : s.Holds P M) (hP : HoldsOfPlain P) {f : FrameId} {x : String} {m : Member}
    (hm : s.own? f x = some m) : m.Holds P M := by
  unfold Store.own? at hm
  split at hm
  · next v hv =>
    cases hm
    exact (h.frame f).get? hv
  · split at hm
    · exact h.member? hP hm
    · cases hm

theorem lookup? (h : s.Holds P M) (hP : HoldsOfPlain P) {env : Env} {x : String} {m : Member}
    (hm : s.lookup? env x = some m) : m.Holds P M := by
  obtain ⟨f, -, hf⟩ := List.exists_of_findSome?_eq_some hm
  exact h.own? hP hf

end Store.Holds

/-- Before a program the only values are the native functions and the root class. -/
theorem Store.holds_initial {P : Value → Prop} {M : Method → Prop} (hP : ∀ n ∈ globalFunctions, P (.native n))
    (hroot : P (.classRef ⟨0⟩)) (hM : M .alloc) : Store.initial.Holds P M := by
  refine ⟨fun f hf => ?_, nofun, fun c hc => ?_, fun c hc => ?_, nofun⟩
  · rcases List.mem_cons.1 (Array.mem_toList_iff.2 hf) with rfl | hf
    · refine List.forall_mem_append.2 ⟨fun b hb => ?_, List.forall_mem_singleton.2 hroot⟩
      obtain ⟨n, hn, rfl⟩ := List.mem_map.1 hb
      exact hP n hn
    · rw [List.mem_singleton.1 hf]
      exact Bindings.all_nil
  · rw [List.mem_singleton.1 (Array.mem_toList_iff.2 hc)]
    exact Bindings.all_nil
  · rw [List.mem_singleton.1 (Array.mem_toList_iff.2 hc)]
    exact List.forall_mem_singleton.2 hM

end ObjScript
