import ObjScript.Machine
import ObjScript.Proofs.Parser.Names
import ObjScript.Proofs.Store.Methods

/-!
# Properties that show through frames

A property is initial for a class if the class or one above it gives it an initial value (`Store.Initial`).  In a tidy
store every instance has its initial properties, and no frame of a method hides one of them by a binding of its own
(`Store.Tidy`): a write to such a frame sets the property instead.  So the frame shows the property of its instance
(`Store.Tidy.own?_property`).  Each change of the store keeps it tidy.
-/

namespace ObjScript

namespace Store

variable {T : String → String → Prop} {K : String → Prop} {s t : Store} {f : FrameId} {i : InstanceId} {c d : ClassId}
  {x : String} {v : Value}

/-! ### Initial properties -/

/-- The class or one above it gives the property an initial value. -/
def Initial (s : Store) (c : ClassId) (x : String) : Prop :=
  ∃ d ∈ s.line c, (s.classOf d).properties.has x = true

private theorem has_initialProperties (s : Store) (line : List ClassId) (x : String) :
    (s.initialProperties line).has x = true ↔ ∃ d ∈ line, (s.classOf d).properties.has x = true := by
  induction line with
  | nil => simp [initialProperties, Bindings.has, Bindings.get?]
  | cons d line ih =>
    change (Bindings.putAll (s.initialProperties line) (s.classOf d).properties).has x = true ↔ _
    rw [Bindings.has_putAll, ih, List.exists_mem_cons_iff]

theorem Initial.ofAbove (hs : s.Lineages) (hd : d ∈ s.line c) (h : s.Initial d x) : s.Initial c x := by
  obtain ⟨a, ha, hx⟩ := h
  exact ⟨a, hs.line_subset hd ha, hx⟩

/-- A class keeps its initial properties and gets no others. -/
private theorem Later.initial_iff (hlater : s.Later K t) (hs : s.Lineages) (hc : c.index < s.classes.size) :
    t.Initial c x ↔ s.Initial c x := by
  have hproperties : ∀ d ∈ s.line c, (t.classOf d).properties = (s.classOf d).properties :=
    fun d hd => hlater.initial d (hs.lt_size hc hd)
  unfold Initial
  rw [hlater.line hc]
  refine exists_congr fun d => and_congr_right fun hd => ?_
  rw [hproperties d hd]

/-! ### Tidy stores -/

/-- The instances have their initial properties, the frames of methods do not hide them, and the classes have the
properties in `T`. -/
structure Tidy (T : String → String → Prop) (s : Store) : Prop where
  globals : s.PlainFrame .globals
  top : s.PlainFrame ⟨1⟩
  size : 1 < s.frames.size
  properties : ∀ i : InstanceId, i.index < s.instances.size → ∀ x, s.Initial (s.object i).cls x →
    (s.object i).properties.has x = true
  shown : ∀ f i, (s.frame f).receiver = some i → ∀ x, s.Initial (s.object i).cls x →
    (s.frame f).bindings.has x = false
  classes : ∀ c : ClassId, c.index < s.classes.size → ∀ x, T (s.classOf c).name x → s.Initial c x
  names : ∀ c x, (s.classOf c).properties.has x = true → IsName x

/-- A frame with a receiver shows its initial properties. -/
theorem Tidy.own?_property (h : s.Tidy T) (hi : i.index < s.instances.size) (hf : (s.frame f).receiver = some i)
    (hx : s.Initial (s.object i).cls x) :
    ∃ v, (s.object i).properties.get? x = some v ∧ s.member? i x = some (.value v) ∧
      s.own? f x = some (.value v) := by
  obtain ⟨v, hv⟩ := Option.isSome_iff_exists.1 (h.properties i hi x hx)
  have hmember : s.member? i x = some (.value v) := by
    unfold member?
    rw [hv]
  have hnone : (s.frame f).bindings.get? x = none :=
    Option.not_isSome_iff_eq_none.1 (Bool.eq_false_iff.1 (h.shown f i hf x hx))
  refine ⟨v, hv, hmember, ?_⟩
  unfold own?
  rw [hnone, hf]
  exact hmember

private theorem define_property (hf : (s.frame f).receiver = some i) (hb : (s.frame f).bindings.has x = false)
    (hx : (s.object i).properties.has x = true) (v : Value) : s.define f x v = s.putProperty i x v := by
  unfold define
  rw [hf]
  dsimp only
  rw [hb, hx]
  rfl

/-- A write to a frame with a receiver sets an initial property of the instance. -/
theorem Tidy.define_eq (h : s.Tidy T) (hi : i.index < s.instances.size) (hf : (s.frame f).receiver = some i)
    (hx : s.Initial (s.object i).cls x) (v : Value) : s.define f x v = s.putProperty i x v :=
  define_property hf (h.shown f i hf x hx) (h.properties i hi x hx) v

section Steps

variable (hl : s.Lineages) (hr : ∀ f i, (s.frame f).receiver = some i → i.index < s.instances.size)
  (hc : ∀ i : InstanceId, i.index < s.instances.size → (s.object i).cls.index < s.classes.size) (h : s.Tidy T)

include hl hr hc h

omit hr in
/-- A later store without more classes is tidy if its new instances and all its frames are. -/
private theorem Tidy.next (hlater : s.Later (fun x => x = "self" ∨ x = "super") t)
    (hsize : t.classes.size = s.classes.size)
    (hnew : ∀ i : InstanceId, s.instances.size ≤ i.index → i.index < t.instances.size →
      (t.object i).cls.index < s.classes.size ∧
        ∀ x, s.Initial (t.object i).cls x → (t.object i).properties.has x = true)
    (hframes : ∀ f i, (t.frame f).receiver = some i → i.index < s.instances.size ∧
      ∀ x, s.Initial (s.object i).cls x → (t.frame f).bindings.has x = false) : t.Tidy T where
  globals := h.globals.mono (.inl rfl) (.inr rfl) hlater (Nat.lt_trans Nat.zero_lt_one h.size)
  top := h.top.mono (.inl rfl) (.inr rfl) hlater h.size
  size := Nat.lt_of_lt_of_le h.size hlater.frames
  properties i hi x hx := by
    by_cases hold : i.index < s.instances.size
    · rw [hlater.cls i hold, hlater.initial_iff hl (hc i hold)] at hx
      exact hlater.property i x hold (h.properties i hold x hx)
    · obtain ⟨hlt, hprop⟩ := hnew i (Nat.le_of_not_lt hold) hi
      exact hprop x ((hlater.initial_iff hl hlt).1 hx)
  shown f i hf x hx := by
    obtain ⟨hi, hhidden⟩ := hframes f i hf
    rw [hlater.cls i hi, hlater.initial_iff hl (hc i hi)] at hx
    exact hhidden x hx
  classes c hlt x hx := by
    rw [hsize] at hlt
    rw [hlater.name c hlt] at hx
    exact (hlater.initial_iff hl hlt).2 (h.classes c hlt x hx)
  names c x hx := by
    by_cases hlt : c.index < s.classes.size
    · rw [hlater.initial c hlt] at hx
      exact h.names c x hx
    · rw [classOf, Array.getD_eq_getD_getElem?, Array.getElem?_eq_none (hsize ▸ Nat.le_of_not_lt hlt)] at hx
      cases hx

omit hl hc in
theorem Tidy.shown_lt (hf : (s.frame f).receiver = some i) : i.index < s.instances.size ∧
    ∀ x, s.Initial (s.object i).cls x → (s.frame f).bindings.has x = false :=
  ⟨hr f i hf, h.shown f i hf⟩

theorem Tidy.pushFrame {new : Frame} (hnew : ∀ i, new.receiver = some i → i.index < s.instances.size ∧
    ∀ x, s.Initial (s.object i).cls x → new.bindings.has x = false) :
    Tidy T { s with frames := s.frames.push new } := by
  refine h.next hl hc (.pushFrame s new) rfl (fun _ hle hlt => absurd hlt (Nat.not_lt.2 hle)) fun f i hf => ?_
  rw [frame_push] at hf ⊢
  split
  · next hfs =>
    rw [if_pos hfs] at hf
    exact hnew i hf
  · next hfs =>
    rw [if_neg hfs] at hf
    exact h.shown_lt hr hf

theorem Tidy.arrays (arrays : Array (Array Value)) : Tidy T { s with arrays := arrays } :=
  h.next hl hc (.arrays s arrays) rfl (fun _ hle hlt => absurd hlt (Nat.not_lt.2 hle)) fun _ _ hf =>
    h.shown_lt hr hf

/-- A new instance gets its initial properties. -/
theorem Tidy.allocate (hlt : c.index < s.classes.size) :
    Tidy T { s with instances := s.instances.push ⟨c, s.initialProperties (s.line c)⟩ } := by
  refine h.next hl hc (.pushInstance s _) rfl (fun i hle hi => ?_) fun _ _ hf => h.shown_lt hr hf
  have hindex : i.index = s.instances.size := by
    rw [Array.size_push] at hi
    omega
  rw [object_push, if_pos hindex]
  exact ⟨hlt, fun x hx => (has_initialProperties s _ x).2 hx⟩

theorem Tidy.putProperty (i : InstanceId) (x : String) (v : Value) : (s.putProperty i x v).Tidy T := by
  have hsize : (s.putProperty i x v).instances.size = s.instances.size := Array.size_modify
  refine h.next hl hc (.putProperty s i x v) rfl (fun _ hle hlt => ?_) fun _ _ hf => h.shown_lt hr hf
  rw [hsize] at hlt
  exact absurd hlt (Nat.not_lt.2 hle)

/-- Binding a name hides no property. -/
theorem Tidy.define (f : FrameId) (hx : IsName x) (v : Value) : (s.define f x v).Tidy T := by
  have hlater : s.Later (fun x => x = "self" ∨ x = "super") (s.define f x v) := .define s f v hx.not_reserved
  have hsize : (s.define f x v).classes.size = s.classes.size := by
    rcases s.define_cases f x v with h | ⟨i, -, -, -, h⟩
    · rw [h]
      rfl
    · rw [h]
      rfl
  have hinstances : (s.define f x v).instances.size = s.instances.size := by
    rcases s.define_cases f x v with h | ⟨i, -, -, -, h⟩
    · rw [h]
      rfl
    · rw [h]
      exact Array.size_modify
  refine h.next hl hc hlater hsize (fun _ hle hlt => absurd hlt (by omega)) fun k i hk => ?_
  rw [receiver_define] at hk
  obtain ⟨hi, hhidden⟩ := h.shown_lt hr hk
  refine ⟨hi, fun y hy => ?_⟩
  by_cases hkf : k = f
  · subst hkf
    by_cases hyx : y = x
    · subst hyx
      rw [h.define_eq hi hk hy]
      exact hhidden y hy
    · rcases s.define_cases k x v with hdefine | ⟨_, -, -, -, hdefine⟩
      · rw [hdefine, frame_putBinding]
        split
        · rw [Bool.eq_false_iff, Ne, Bindings.has_put, not_or]
          exact ⟨hyx, Bool.eq_false_iff.1 (hhidden y hy)⟩
        · exact hhidden y hy
      · rw [hdefine]
        exact hhidden y hy
  · rw [frame_define_of_ne hkf]
    exact hhidden y hy

theorem Tidy.putMethods (c : ClassId) (table : Bindings Method) : (s.putMethods c table).Tidy T :=
  h.next hl hc (.putMethods s c table) Array.size_modify (fun _ hle hlt => absurd hlt (Nat.not_lt.2 hle))
    fun _ _ hf => h.shown_lt hr hf

/-- A new class with the properties in `T`. -/
theorem Tidy.pushClass {new : Class} (hnames : ∀ x, new.properties.has x = true → IsName x)
    (hnew : ∀ x, T new.name x → new.properties.has x = true ∨
      ∃ p : ClassId, p.index < s.classes.size ∧ new.lineage = s.line p ∧ s.Initial p x) :
    Tidy T { s with classes := s.classes.push new } := by
  have hlater : s.Later (fun _ => True) { s with classes := s.classes.push new } := .pushClass s new
  have hclass : ∀ c : ClassId, c.index = s.classes.size →
      Store.classOf { s with classes := s.classes.push new } c = new := by
    intro c hc
    rw [classOf_push, if_pos hc]
  exact {
    globals := h.globals.mono trivial trivial hlater (Nat.lt_trans Nat.zero_lt_one h.size)
    top := h.top.mono trivial trivial hlater h.size
    size := h.size
    properties := fun i hi x hx => h.properties i hi x ((hlater.initial_iff hl (hc i hi)).1 hx)
    shown := fun f i hf x hx => h.shown f i hf x ((hlater.initial_iff hl (hc i (hr f i hf))).1 hx)
    classes := by
      intro c hlt x hx
      by_cases hold : c.index < s.classes.size
      · rw [hlater.name c hold] at hx
        exact (hlater.initial_iff hl hold).2 (h.classes c hold x hx)
      · have hc : c.index = s.classes.size := by
          rw [Array.size_push] at hlt
          omega
        rw [hclass c hc] at hx
        rcases hnew x hx with hown | ⟨p, hp, hlineage, hinitial⟩
        · exact ⟨c, List.mem_cons_self, (hclass c hc).symm ▸ hown⟩
        · obtain ⟨d, hd, hdx⟩ := hinitial
          refine ⟨d, List.mem_cons_of_mem _ ?_, ?_⟩
          · rw [hclass c hc, hlineage]
            exact hd
          · rw [hlater.initial d (hl.lt_size hp hd)]
            exact hdx
    names := by
      intro c x hx
      rw [classOf_push] at hx
      split at hx
      · exact hnames x hx
      · exact h.names c x hx }

end Steps

/-! ### Classes that are known by their names -/

/-- At the top level the name stands for the class of this name. -/
structure ClassAt (s : Store) (cls : String) (c : ClassId) : Prop where
  bound : s.lookup? Env.top cls = some (.value (.classRef c))
  lt_size : c.index < s.classes.size
  name : (s.classOf c).name = cls

/-- A frame without a receiver owns what it binds. -/
private theorem own?_of_receiver (hf : (s.frame f).receiver = none) :
    s.own? f x = ((s.frame f).bindings.get? x).map .value := by
  unfold own?
  rw [hf]
  cases (s.frame f).bindings.get? x <;> rfl

/-- What the name stands for at the top level stays the same. -/
private theorem Tidy.lookup?_later (hs : s.Tidy T) (hlater : s.Later K t) (hx : K x) :
    t.lookup? Env.top x = s.lookup? Env.top x := by
  have hown : ∀ f, s.PlainFrame f → f.index < s.frames.size → t.own? f x = s.own? f x := by
    intro f hf hlt
    rw [own?_of_receiver hf.receiver, own?_of_receiver ((hlater.receiver f hlt).trans hf.receiver),
      hlater.binding f x hlt hx]
  unfold lookup? Env.top
  rw [List.findSome?_cons, List.findSome?_cons, List.findSome?_cons, List.findSome?_cons,
    hown _ hs.top hs.size, hown _ hs.globals (Nat.lt_trans Nat.zero_lt_one hs.size)]
  rfl

theorem ClassAt.later {cls : String} (h : s.ClassAt cls c) (hs : s.Tidy T) (hlater : s.Later K t) (hcls : K cls) :
    t.ClassAt cls c where
  bound := (hs.lookup?_later hlater hcls).trans h.bound
  lt_size := Nat.lt_of_lt_of_le h.lt_size hlater.classes
  name := (hlater.name c h.lt_size).trans h.name

end Store

end ObjScript
