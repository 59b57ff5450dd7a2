import ObjScript.Proofs.Store.Sound

/-!
# Methods and the frames they run on

The nearest method of a line of classes (`Store.Nearest`), and what the frame of a method knows: the instance or the
class it is bound to, and the superclass of the class that defines it (`Store.MethodFrame`, `Store.StaticFrame`).  A
frame keeps what it knows, and so does a copy of it.
-/

namespace ObjScript.Store

variable {s t : Store} {f : FrameId} {i : InstanceId} {c k : ClassId} {x : String}

/-! ### The nearest method -/

/-- The first class of a line that has a method of the name which may be seen, and this method. -/
def Nearest (s : Store) (visible : Method → Bool) (x : String) (line : List ClassId) (c : ClassId) (f : Closure) :
    Prop :=
  ∃ below above, line = below ++ c :: above ∧ (s.classOf c).methods.get? x = some (.closure f) ∧
    visible (.closure f) = true ∧ ∀ b ∈ below, ∀ m, (s.classOf b).methods.get? x = some m → visible m = false

theorem Nearest.mem_line {visible : Method → Bool} {line : List ClassId} {f : Closure}
    (h : s.Nearest visible x line c f) : c ∈ line := by
  obtain ⟨below, above, rfl, -⟩ := h
  exact List.mem_append_right _ List.mem_cons_self

/-- The search along the line of a class finds the nearest method, and with it the superclass of its class. -/
theorem Nearest.findMethod? (hs : s.Lineages) {visible : Method → Bool} {f : Closure}
    (h : s.Nearest visible x (s.line k) c f) :
    s.findMethod? visible x (s.line k) = some ⟨c, .closure f, s.superclass? c⟩ := by
  obtain ⟨below, above, hline, hmethod, hvisible, hbelow⟩ := h
  refine findMethod?_eq_some.2 ⟨below, above, hline, ?_, hmethod, hvisible, hbelow⟩
  exact congrArg List.head? (hs.lineage_eq hline)

/-- An instance without a property of the name shows the nearest method. -/
theorem Nearest.member? (hs : s.Lineages) {f : Closure} (hx : (s.object i).properties.has x = false)
    (h : s.Nearest (fun _ => true) x (s.line (s.object i).cls) c f) :
    s.member? i x = some (.method f i (s.superclass? c)) := by
  have hnone : (s.object i).properties.get? x = none := Option.not_isSome_iff_eq_none.1 (Bool.eq_false_iff.1 hx)
  unfold Store.member?
  rw [hnone, h.findMethod? hs]

/-! ### What a frame knows -/

/-- The receiver of the frame, and what it binds to `self` and to `super`. -/
structure Knows (s : Store) (f : FrameId) (r : Option InstanceId) (me above : Option Value) : Prop where
  receiver : (s.frame f).receiver = r
  self : (s.frame f).bindings.get? "self" = me
  super : (s.frame f).bindings.get? "super" = above

/-- The frame of a scope that is no implementation. -/
def PlainFrame (s : Store) (f : FrameId) : Prop :=
  s.Knows f none none none

/-- The frame of a method of the class `c` that is bound to the instance. -/
structure MethodFrame (s : Store) (f : FrameId) (i : InstanceId) (c : ClassId) : Prop where
  knows : s.Knows f (some i) (some (.object i)) ((s.superclass? c).map .classRef)
  lt_size : c.index < s.classes.size

/-- The frame of a static method that is bound to the class. -/
def StaticFrame (s : Store) (f : FrameId) (k : ClassId) : Prop :=
  s.Knows f none (some (.classRef k)) none

/-- The frame of a method. -/
def OfMethod (s : Store) (f : FrameId) : Prop :=
  (∃ i c, s.MethodFrame f i c) ∨ ∃ k, s.StaticFrame f k

namespace Knows

variable {r : Option InstanceId} {a b : Option Value} {v : Value}

theorem own?_self (h : s.Knows f r (some v) b) : s.own? f "self" = some (.value v) := by
  unfold own?
  rw [h.self]

theorem own?_super (h : s.Knows f r a (some v)) : s.own? f "super" = some (.value v) := by
  unfold own?
  rw [h.super]

/-- A frame keeps what it knows. -/
theorem mono {K : String → Prop} (hself : K "self") (hsuper : K "super") (hlater : s.Later K t)
    (hf : f.index < s.frames.size) (h : s.Knows f r a b) : t.Knows f r a b :=
  ⟨(hlater.receiver f hf).trans h.receiver, (hlater.binding f _ hf hself).trans h.self,
    (hlater.binding f _ hf hsuper).trans h.super⟩

/-- A copy knows the same. -/
theorem copy {f' : FrameId} (hframe : t.frame f' = s.frame f) (h : s.Knows f r a b) : t.Knows f' r a b := by
  rw [← h.receiver, ← h.self, ← h.super]
  exact ⟨congrArg _ hframe, congrArg (fun k => k.bindings.get? "self") hframe,
    congrArg (fun k => k.bindings.get? "super") hframe⟩

end Knows

/-- A new frame. -/
private theorem knows_push (s : Store) (new : Frame) :
    Store.Knows { s with frames := s.frames.push new } ⟨s.frames.size⟩
    new.receiver (new.bindings.get? "self") (new.bindings.get? "super") := by
  have hframe : Store.frame { s with frames := s.frames.push new } ⟨s.frames.size⟩ = new := by
    rw [frame_push, if_pos rfl]
  refine ⟨?_, ?_, ?_⟩ <;> rw [hframe]

theorem PlainFrame.own?_eq_none (h : s.PlainFrame f) (hx : x = "self" ∨ x = "super") : s.own? f x = none := by
  unfold own?
  rw [h.receiver]
  rcases hx with rfl | rfl
  · rw [h.self]
  · rw [h.super]

/-- The new frame of a scope that binds neither `self` nor `super`. -/
theorem plainFrame_push {b : Bindings Value} (hself : b.get? "self" = none) (hsuper : b.get? "super" = none) :
    Store.PlainFrame { s with frames := s.frames.push ⟨b, none⟩ } ⟨s.frames.size⟩ := by
  have hknows := knows_push s ⟨b, none⟩
  rw [hself, hsuper] at hknows
  exact hknows

theorem superclass?_mono {K : String → Prop} (hlater : s.Later K t) (hc : c.index < s.classes.size) :
    t.superclass? c = s.superclass? c :=
  congrArg List.head? (hlater.lineage c hc)

theorem MethodFrame.mono {K : String → Prop} (hself : K "self") (hsuper : K "super") (hlater : s.Later K t)
    (h : s.MethodFrame f i c) : t.MethodFrame f i c := by
  have hf : f.index < s.frames.size := by
    by_contra hf
    have hreceiver := h.knows.receiver
    rw [frame_of_size_le (Nat.le_of_not_lt hf)] at hreceiver
    cases hreceiver
  refine ⟨?_, Nat.lt_of_lt_of_le h.lt_size hlater.classes⟩
  rw [superclass?_mono hlater h.lt_size]
  exact h.knows.mono hself hsuper hlater hf

/-- A copy of the frame of a method is one as well. -/
theorem MethodFrame.copy {f' : FrameId} (h : s.MethodFrame f i c) (hframe : t.frame f' = s.frame f)
    (hclasses : t.classes = s.classes) : t.MethodFrame f' i c := by
  have hsuper : t.superclass? c = s.superclass? c := by
    unfold superclass? classOf
    rw [hclasses]
  refine ⟨?_, hclasses ▸ h.lt_size⟩
  rw [hsuper]
  exact h.knows.copy hframe

/-- The frame that a method is bound on. -/
theorem methodFrame_push (hc : c.index < s.classes.size) (i : InstanceId) :
    Store.MethodFrame { s with frames := s.frames.push (boundFrame i (s.superclass? c)) } ⟨s.frames.size⟩ i c := by
  refine ⟨?_, hc⟩
  have hsuper : (boundFrame i (s.superclass? c)).bindings.get? "super" = (s.superclass? c).map .classRef := by
    cases s.superclass? c <;> rfl
  rw [show Store.superclass? { s with frames := s.frames.push (boundFrame i (s.superclass? c)) } c = s.superclass? c
    from rfl, ← hsuper]
  exact knows_push s (boundFrame i (s.superclass? c))

theorem staticFrame_push (s : Store) (k : ClassId) :
    Store.StaticFrame { s with frames := s.frames.push ⟨[("self", .classRef k)], none⟩ } ⟨s.frames.size⟩ k :=
  knows_push s ⟨[("self", .classRef k)], none⟩

/-- The frames of a chain are copied with what they know. -/
theorem Copied.methodFrame {frames copies : List FrameId} (h : s.Copied frames copies t) (hs : 0 < s.frames.size) :
    List.Forall₂ (fun f f' => ∀ i c, s.MethodFrame f i c → t.MethodFrame f' i c) (frames ++ [.globals])
      (copies ++ [.globals]) := by
  have hcopy : ∀ f f', t.frame f' = s.frame f → ∀ i c, s.MethodFrame f i c → t.MethodFrame f' i c :=
    fun f f' hframe i c hf => hf.copy hframe (by rw [h.rest])
  refine List.rel_append ?_ ?_
  · exact h.same.imp hcopy
  · exact .cons (hcopy _ _ (h.old .globals hs)) .nil

end ObjScript.Store
