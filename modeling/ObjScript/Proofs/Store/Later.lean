import ObjScript.Proofs.Store.Frames

/-!
# What a store keeps

A later store has all frames, classes and instances of an earlier one (`Store.Later`).  A frame keeps its
receiver and the bindings of the names that are never bound anew, a class keeps its name, its lineage and the
initial values of its properties, and an instance keeps its class and the names of its properties.

The line of a class goes on with the line of its superclass (`Store.Lineages`).
-/

namespace ObjScript

namespace Store

theorem object_push (s : Store) (new : Instance) (i : InstanceId) :
    Store.object { s with instances := s.instances.push new } i =
      if i.index = s.instances.size then new else s.object i :=
  getD_push s.instances new i.index _

theorem classOf_push (s : Store) (new : Class) (c : ClassId) :
    Store.classOf { s with classes := s.classes.push new } c =
      if c.index = s.classes.size then new else s.classOf c :=
  getD_push s.classes new c.index _

theorem object_putProperty (s : Store) (i : InstanceId) (x : String) (v : Value) (k : InstanceId) :
    (s.putProperty i x v).object k =
      if k = i ∧ i.index < s.instances.size then
        { s.object i with properties := (s.object i).properties.put x v }
      else s.object k := by
  have hid : k = i ↔ k.index = i.index := Iff.of_eq (InstanceId.mk.injEq ..)
  simp only [hid]
  exact getD_modify s.instances i.index _ k.index _

theorem classOf_putMethods (s : Store) (c : ClassId) (table : Bindings Method) (k : ClassId) :
    (s.putMethods c table).classOf k =
      if k = c ∧ c.index < s.classes.size then
        { s.classOf c with methods := (s.classOf c).methods.putAll table }
      else s.classOf k := by
  have hid : k = c ↔ k.index = c.index := Iff.of_eq (ClassId.mk.injEq ..)
  simp only [hid]
  exact getD_modify s.classes c.index _ k.index _

/-- A frame other than the one that is written to stays as it is. -/
theorem frame_define_of_ne {s : Store} {f k : FrameId} (h : k ≠ f) (x : String) (v : Value) :
    (s.define f x v).frame k = s.frame k := by
  have hput : (s.putBinding f x v).frame k = s.frame k := by
    rw [frame_putBinding, if_neg fun hk => h hk.1]
  unfold define
  split
  · split
    · rfl
    · exact hput
  · exact hput

/-- Binding a name is binding it in the frame itself or setting a property of the receiver. -/
theorem define_cases (s : Store) (f : FrameId) (x : String) (v : Value) :
    s.define f x v = s.putBinding f x v ∨
      ∃ i, (s.frame f).receiver = some i ∧ (s.frame f).bindings.has x = false ∧
        (s.object i).properties.has x = true ∧ s.define f x v = s.putProperty i x v := by
  unfold define
  split
  · next i hi =>
    split
    · next hx =>
      rw [Bool.and_eq_true, Bool.not_eq_true'] at hx
      exact .inr ⟨i, hi, hx.1, hx.2, rfl⟩
    · exact .inl rfl
  · exact .inl rfl

/-- What holds of a later store.  The bindings of the names in `K` do not change. -/
structure Later (K : String → Prop) (s t : Store) : Prop where
  frames : s.frames.size ≤ t.frames.size
  receiver : ∀ f : FrameId, f.index < s.frames.size → (t.frame f).receiver = (s.frame f).receiver
  binding : ∀ (f : FrameId) (x : String), f.index < s.frames.size → K x →
    (t.frame f).bindings.get? x = (s.frame f).bindings.get? x
  classes : s.classes.size ≤ t.classes.size
  name : ∀ c : ClassId, c.index < s.classes.size → (t.classOf c).name = (s.classOf c).name
  lineage : ∀ c : ClassId, c.index < s.classes.size → (t.classOf c).lineage = (s.classOf c).lineage
  initial : ∀ c : ClassId, c.index < s.classes.size → (t.classOf c).properties = (s.classOf c).properties
  instances : s.instances.size ≤ t.instances.size
  cls : ∀ i : InstanceId, i.index < s.instances.size → (t.object i).cls = (s.object i).cls
  property : ∀ (i : InstanceId) (x : String), i.index < s.instances.size →
    (s.object i).properties.has x = true → (t.object i).properties.has x = true

namespace Later

variable {K : String → Prop} {s t u : Store}

theorem refl (s : Store) : s.Later K s :=
  ⟨Nat.le_refl _, fun _ _ => rfl, fun _ _ _ _ => rfl, Nat.le_refl _, fun _ _ => rfl, fun _ _ => rfl,
    fun _ _ => rfl, Nat.le_refl _, fun _ _ => rfl, fun _ _ _ h => h⟩

theorem trans (h : s.Later K t) (h' : t.Later K u) : s.Later K u where
  frames := Nat.le_trans h.frames h'.frames
  receiver f hf := (h'.receiver f (Nat.lt_of_lt_of_le hf h.frames)).trans (h.receiver f hf)
  binding f x hf hx := (h'.binding f x (Nat.lt_of_lt_of_le hf h.frames) hx).trans (h.binding f x hf hx)
  classes := Nat.le_trans h.classes h'.classes
  name c hc := (h'.name c (Nat.lt_of_lt_of_le hc h.classes)).trans (h.name c hc)
  lineage c hc := (h'.lineage c (Nat.lt_of_lt_of_le hc h.classes)).trans (h.lineage c hc)
  initial c hc := (h'.initial c (Nat.lt_of_lt_of_le hc h.classes)).trans (h.initial c hc)
  instances := Nat.le_trans h.instances h'.instances
  cls i hi := (h'.cls i (Nat.lt_of_lt_of_le hi h.instances)).trans (h.cls i hi)
  property i x hi hx := h'.property i x (Nat.lt_of_lt_of_le hi h.instances) (h.property i x hi hx)

/-- Fewer names are looked at. -/
theorem imp {K' : String → Prop} (h : s.Later K t) (hK : ∀ x, K' x → K x) : s.Later K' t :=
  { h with binding := fun f x hf hx => h.binding f x hf (hK x hx) }

theorem line (h : s.Later K t) {c : ClassId} (hc : c.index < s.classes.size) : t.line c = s.line c :=
  congrArg (List.cons c) (h.lineage c hc)

theorem pushFrame (s : Store) (new : Frame) : s.Later K { s with frames := s.frames.push new } := by
  have hframe : ∀ f : FrameId, f.index < s.frames.size →
      Store.frame { s with frames := s.frames.push new } f = s.frame f := by
    intro f hf
    rw [frame_push, if_neg (Nat.ne_of_lt hf)]
  refine { refl (K := K) s with frames := ?_, receiver := fun f hf => ?_, binding := fun f x hf _ => ?_ }
  · rw [Array.size_push]
    exact Nat.le_succ _
  · rw [hframe f hf]
  · rw [hframe f hf]

theorem arrays (s : Store) (arrays : Array (Array Value)) : s.Later K { s with arrays := arrays } :=
  { refl s with }

theorem pushInstance (s : Store) (new : Instance) :
    s.Later K { s with instances := s.instances.push new } := by
  have hobject : ∀ i : InstanceId, i.index < s.instances.size →
      Store.object { s with instances := s.instances.push new } i = s.object i := by
    intro i hi
    rw [object_push, if_neg (Nat.ne_of_lt hi)]
  refine { refl (K := K) s with instances := ?_, cls := fun i hi => ?_, property := fun i x hi hx => ?_ }
  · rw [Array.size_push]
    exact Nat.le_succ _
  · rw [hobject i hi]
  · rwa [hobject i hi]

theorem pushClass (s : Store) (new : Class) : s.Later K { s with classes := s.classes.push new } := by
  have hclass : ∀ c : ClassId, c.index < s.classes.size →
      Store.classOf { s with classes := s.classes.push new } c = s.classOf c := by
    intro c hc
    rw [classOf_push, if_neg (Nat.ne_of_lt hc)]
  have hsize : s.classes.size ≤ (s.classes.push new).size := by
    rw [Array.size_push]
    exact Nat.le_succ _
  exact { refl (K := K) s with
    classes := hsize
    name := fun c hc => congrArg Class.name (hclass c hc)
    lineage := fun c hc => congrArg Class.lineage (hclass c hc)
    initial := fun c hc => congrArg Class.properties (hclass c hc) }

theorem putProperty (s : Store) (i : InstanceId) (x : String) (v : Value) :
    s.Later K (s.putProperty i x v) := by
  refine { refl (K := K) s with instances := ?_, cls := fun k _ => ?_, property := fun k y _ hy => ?_ }
  · exact Nat.le_of_eq Array.size_modify.symm
  · rw [object_putProperty]
    split
    · next hk => rw [hk.1]
    · rfl
  · rw [object_putProperty]
    split
    · next hk =>
      rw [hk.1] at hy
      exact (Bindings.has_put _ x y v).2 (.inr hy)
    · exact hy

theorem putBinding (s : Store) (f : FrameId) {x : String} (v : Value) (hx : ¬ K x) :
    s.Later K (s.putBinding f x v) := by
  refine { refl (K := K) s with frames := ?_, receiver := fun k _ => ?_, binding := fun k y _ hy => ?_ }
  · exact Nat.le_of_eq Array.size_modify.symm
  · rw [frame_putBinding]
    split
    · next hk => rw [hk.1]
    · rfl
  · rw [frame_putBinding]
    split
    · next hk =>
      have hne : y ≠ x := fun h => hx (h ▸ hy)
      rw [hk.1]
      exact Bindings.get?_put_of_ne _ hne v
    · rfl

theorem define (s : Store) (f : FrameId) {x : String} (v : Value) (hx : ¬ K x) :
    s.Later K (s.define f x v) := by
  rcases s.define_cases f x v with h | ⟨i, -, -, -, h⟩
  · rw [h]
    exact putBinding s f v hx
  · rw [h]
    exact putProperty s i x v

theorem putMethods (s : Store) (c : ClassId) (table : Bindings Method) :
    s.Later K (s.putMethods c table) := by
  have hclass : ∀ k, ((s.putMethods c table).classOf k).name = (s.classOf k).name ∧
      ((s.putMethods c table).classOf k).lineage = (s.classOf k).lineage ∧
      ((s.putMethods c table).classOf k).properties = (s.classOf k).properties := by
    intro k
    rw [classOf_putMethods]
    split
    · next hk =>
      rw [hk.1]
      exact ⟨rfl, rfl, rfl⟩
    · exact ⟨rfl, rfl, rfl⟩
  exact { refl (K := K) s with
    classes := Nat.le_of_eq Array.size_modify.symm
    name := fun k _ => (hclass k).1
    lineage := fun k _ => (hclass k).2.1
    initial := fun k _ => (hclass k).2.2 }

end Later

/-- The superclass of a class. -/
def superclass? (s : Store) (c : ClassId) : Option ClassId :=
  (s.classOf c).lineage.head?

/-- The lineage of a class is its superclass, made before it, and the lineage of that one. -/
def Lineages (s : Store) : Prop :=
  ∀ c a above, (s.classOf c).lineage = a :: above → a.index < c.index ∧ (s.classOf a).lineage = above

namespace Lineages

variable {s : Store}

/-- A class on a line is followed by its own lineage. -/
theorem lineage_eq (h : s.Lineages) {c d : ClassId} {below above : List ClassId}
    (hline : s.line c = below ++ d :: above) : (s.classOf d).lineage = above := by
  unfold Store.line at hline
  induction below generalizing c with
  | nil =>
    obtain ⟨rfl, habove⟩ := List.cons.inj hline
    exact habove
  | cons b below ih =>
    obtain ⟨-, hlineage⟩ := List.cons.inj hline
    cases below with
    | nil => exact (h c d above hlineage).2
    | cons a below =>
      have hnext := (h c a _ hlineage).2
      exact ih (congrArg (List.cons a) hnext)

/-- The classes above a class were made before it. -/
theorem index_lt (h : s.Lineages) {c d : ClassId} (hd : d ∈ (s.classOf c).lineage) : d.index < c.index := by
  generalize hl : (s.classOf c).lineage = l at hd
  induction l generalizing c with
  | nil => cases hd
  | cons a above ih =>
    obtain ⟨hlt, habove⟩ := h c a above hl
    rcases List.mem_cons.1 hd with rfl | hd
    · exact hlt
    · exact Nat.lt_trans (ih habove hd) hlt

/-- What lies above a class of a line belongs to the line. -/
theorem line_subset (h : s.Lineages) {c d : ClassId} (hd : d ∈ s.line c) : s.line d ⊆ s.line c := by
  obtain ⟨below, above, hline⟩ := List.append_of_mem hd
  have hlineage := h.lineage_eq hline
  intro a ha
  rw [hline, List.mem_append]
  unfold Store.line at ha
  rw [hlineage] at ha
  exact .inr ha

/-- The classes of a line are classes of the store. -/
theorem lt_size (h : s.Lineages) {c d : ClassId} (hc : c.index < s.classes.size) (hd : d ∈ s.line c) :
    d.index < s.classes.size := by
  rcases List.mem_cons.1 hd with rfl | hd
  · exact hc
  · exact Nat.lt_trans (h.index_lt hd) hc

theorem ofClasses {t : Store} (h : s.Lineages) (ht : ∀ c, (t.classOf c).lineage = (s.classOf c).lineage) :
    t.Lineages := by
  intro c a above hl
  rw [ht] at hl
  rw [ht]
  exact h c a above hl

/-- No class was made. -/
theorem ofLater {K : String → Prop} {t : Store} (h : s.Lineages) (hlater : s.Later K t)
    (hsize : t.classes.size = s.classes.size) : t.Lineages := by
  refine h.ofClasses fun c => ?_
  by_cases hc : c.index < s.classes.size
  · exact hlater.lineage c hc
  · have hs : s.classes[c.index]? = none := Array.getElem?_eq_none (Nat.le_of_not_lt hc)
    have ht : t.classes[c.index]? = none := Array.getElem?_eq_none (Nat.le_of_not_lt (hsize ▸ hc))
    rw [classOf, classOf, Array.getD_eq_getD_getElem?, Array.getD_eq_getD_getElem?, hs, ht]

/-- A new class whose lineage is the line of an older class. -/
theorem pushClass (h : s.Lineages) {new : Class}
    (hnew : new.lineage = [] ∨ ∃ p : ClassId, p.index < s.classes.size ∧ new.lineage = s.line p) :
    Store.Lineages { s with classes := s.classes.push new } := by
  intro c a above hl
  rw [classOf_push] at hl
  have hold : ∀ d : ClassId, d.index < s.classes.size →
      Store.classOf { s with classes := s.classes.push new } d = s.classOf d := by
    intro d hd
    rw [classOf_push, if_neg (Nat.ne_of_lt hd)]
  split at hl
  · next hc =>
    rcases hnew with hnil | ⟨p, hp, hline⟩
    · rw [hnil] at hl
      cases hl
    · obtain ⟨rfl, habove⟩ := List.cons.inj (hline.symm.trans hl)
      rw [hold _ hp, hc]
      exact ⟨hp, habove⟩
  · next hc =>
    obtain ⟨hlt, habove⟩ := h c a above hl
    refine ⟨hlt, ?_⟩
    by_cases hcs : c.index < s.classes.size
    · rw [hold a (Nat.lt_trans hlt hcs)]
      exact habove
    · have hnil : (s.classOf c).lineage = [] := by
        rw [classOf, Array.getD_eq_getD_getElem?, Array.getElem?_eq_none (Nat.le_of_not_lt hcs)]
        rfl
      rw [hnil] at hl
      cases hl

end Lineages

/-! ### The nearest method of a line -/

section

variable {s : Store} {visible : Method → Bool} {x : String} {c : ClassId} {above : List ClassId}

/-- A class that has the method ends the search. -/
private theorem findMethod?_cons_of_visible {m : Method} (hm : (s.classOf c).methods.get? x = some m)
    (hv : visible m = true) :
    s.findMethod? visible x (c :: above) = some ⟨c, m, above.head?⟩ := by
  rw [findMethod?, hm]
  exact if_pos hv

/-- In a class without a method that may be seen the search goes on above it. -/
private theorem findMethod?_cons_of_unseen (h : ∀ m, (s.classOf c).methods.get? x = some m → visible m = false) :
    s.findMethod? visible x (c :: above) = s.findMethod? visible x above := by
  rw [findMethod?]
  split
  · next m hm => rw [h m hm, if_neg Bool.false_ne_true]
  · rfl

end

/-- A method is found in the first class that has one which may be seen; what lies above that class begins with its
superclass. -/
theorem findMethod?_eq_some {s : Store} {visible : Method → Bool} {x : String} {line : List ClassId}
    {found : FoundMethod} :
    s.findMethod? visible x line = some found ↔ ∃ below above, line = below ++ found.owner :: above ∧
      found.superclass = above.head? ∧ (s.classOf found.owner).methods.get? x = some found.method ∧
      visible found.method = true ∧
      ∀ c ∈ below, ∀ m, (s.classOf c).methods.get? x = some m → visible m = false := by
  induction line with
  | nil => simp [findMethod?]
  | cons c above ih =>
    by_cases hhere : ∃ m, (s.classOf c).methods.get? x = some m ∧ visible m = true
    · obtain ⟨m, hm, hv⟩ := hhere
      rw [findMethod?_cons_of_visible hm hv, Option.some.injEq]
      constructor
      · rintro rfl
        exact ⟨[], above, rfl, rfl, hm, hv, List.forall_mem_nil _⟩
      · rintro ⟨below, above', hline, hsuper, hmethod, -, hbelow⟩
        cases below with
        | nil =>
          obtain ⟨hc, rfl⟩ := List.cons.inj hline
          rw [← hc, hm] at hmethod
          obtain ⟨owner, method, superclass⟩ := found
          cases hmethod
          cases hc
          exact congrArg _ hsuper.symm
        | cons b below =>
          obtain ⟨rfl, -⟩ := List.cons.inj hline
          exact absurd (hv.symm.trans (hbelow c List.mem_cons_self m hm)) nofun
    · have hunseen : ∀ m, (s.classOf c).methods.get? x = some m → visible m = false :=
        fun m hm => Bool.eq_false_iff.2 fun hv => hhere ⟨m, hm, hv⟩
      rw [findMethod?_cons_of_unseen hunseen, ih]
      constructor
      · rintro ⟨below, above', hline, h⟩
        refine ⟨c :: below, above', congrArg (List.cons c) hline, h.1, h.2.1, h.2.2.1, ?_⟩
        exact List.forall_mem_cons.2 ⟨hunseen, h.2.2.2⟩
      · rintro ⟨below, above', hline, hsuper, hmethod, hv, hbelow⟩
        cases below with
        | nil =>
          obtain ⟨hc, -⟩ := List.cons.inj hline
          exact absurd ⟨_, hc ▸ hmethod, hv⟩ hhere
        | cons b below =>
          obtain ⟨-, hline⟩ := List.cons.inj hline
          exact ⟨below, above', hline, hsuper, hmethod, hv, (List.forall_mem_cons.1 hbelow).2⟩

theorem findMethod?_eq_none {s : Store} {visible : Method → Bool} {x : String} {line : List ClassId} :
    s.findMethod? visible x line = none ↔
      ∀ c ∈ line, ∀ m, (s.classOf c).methods.get? x = some m → visible m = false := by
  induction line with
  | nil => simp [findMethod?]
  | cons c above ih =>
    rw [findMethod?, List.forall_mem_cons]
    split
    · next m hm =>
      cases hv : visible m with
      | true => simp [hm, hv]
      | false => simp [hm, hv, ih]
    · next hm => simp [hm, ih]

end Store

end ObjScript
