import Mathlib.Data.List.Forall2
import ObjScript.Proofs.Store.Later
import ObjScript.Proofs.Store.Values

/-!
# Sound stores

In a sound store every function and block runs on a chain of frames that were made, and every class and instance
that a value names was made.  A value holds a frame if it is a function or a block with the frame in its chain.

Copying a chain makes a new frame for each of its frames, with the same bindings, and leaves everything else
alone (`Store.Copied`).
-/

namespace ObjScript

/-- The frames on which a function or a block runs.  Other values have none. -/
def Value.chain : Value → Env
  | .function f => f.env
  | .block b => b.env
  | _ => []

/-- The value is a function or a block that has one of the frames in its chain. -/
def Value.holds (frames : List FrameId) (v : Value) : Bool :=
  v.chain.any (frames.contains ·)

theorem Value.holds_eq_false {frames : List FrameId} {v : Value} :
    v.holds frames = false ↔ ∀ f ∈ v.chain, f ∉ frames := by
  simp [holds, List.any_eq_false]

theorem Value.holds_eq_true {frames : List FrameId} {v : Value} :
    v.holds frames = true ↔ ∃ f ∈ v.chain, f ∈ frames := by
  simp [holds, List.any_eq_true]

/-- Frames of the store, and then the built-in names. -/
def Store.IsChain (s : Store) (env : Env) : Prop :=
  ∃ frames : List FrameId, env = frames ++ [.globals] ∧ ∀ f ∈ frames, f ≠ .globals ∧ f.index < s.frames.size

/-- The frames, the class or the instance of the value were made. -/
def Value.SoundIn (s : Store) : Value → Prop
  | .function f => s.IsChain f.env
  | .block b => s.IsChain b.env
  | .object i | .native (.init i) => i.index < s.instances.size
  | .classRef c | .native (.alloc c) => c.index < s.classes.size
  | _ => True

/-- The frames of the method were made. -/
def Method.SoundIn (s : Store) : Method → Prop
  | .closure f => s.IsChain f.env
  | .alloc => True

/-- Whatever a value, a method, a frame, a class or an instance of the store refers to was made. -/
structure Store.Sound (s : Store) : Prop where
  values : s.Holds (Value.SoundIn s) (Method.SoundIn s)
  globals : 0 < s.frames.size
  receivers : ∀ f i, (s.frame f).receiver = some i → i.index < s.instances.size
  classes : ∀ i : InstanceId, i.index < s.instances.size → (s.object i).cls.index < s.classes.size
  lineages : s.Lineages

/-- Among the values of the store only those with the property hold one of the frames.  A method counts as the
functions that it is bound to. -/
def Store.HeldOnlyBy (s : Store) (E : Value → Prop) (frames : List FrameId) : Prop :=
  s.Holds (fun v => E v ∨ v.holds frames = false) fun m => ∀ f, m = .closure f →
    (∀ frame, E (.function { f with env := frame :: f.env })) ∨ ∀ g ∈ f.env, g ∉ frames

section

variable {s t : Store} {frames copies : List FrameId} {env : Env}

theorem Store.IsChain.mono (h : s.IsChain env) (hsize : s.frames.size ≤ t.frames.size) : t.IsChain env := by
  obtain ⟨frames, henv, hframes⟩ := h
  exact ⟨frames, henv, fun f hf => ⟨(hframes f hf).1, Nat.lt_of_lt_of_le (hframes f hf).2 hsize⟩⟩

/-- The frames of a chain were made. -/
theorem Store.IsChain.lt_size (h : s.IsChain env) (hs : 0 < s.frames.size) : ∀ f ∈ env, f.index < s.frames.size := by
  obtain ⟨frames, rfl, hframes⟩ := h
  refine List.forall_mem_append.2 ⟨fun f hf => (hframes f hf).2, List.forall_mem_singleton.2 hs⟩

theorem Value.SoundIn.mono {v : Value} (h : v.SoundIn s) (hframes : s.frames.size ≤ t.frames.size)
    (hclasses : s.classes.size ≤ t.classes.size) (hinstances : s.instances.size ≤ t.instances.size) :
    v.SoundIn t := by
  match v, h with
  | .function _, h | .block _, h => exact Store.IsChain.mono h hframes
  | .object _, h | .native (.init _), h => exact Nat.lt_of_lt_of_le h hinstances
  | .classRef _, h | .native (.alloc _), h => exact Nat.lt_of_lt_of_le h hclasses
  | .null, _ | .number _, _ | .string _, _ | .bool _, _ | .array _, _ | .builtin _, _ => trivial
  | .native .clock, _ | .native .array, _ | .native .readLine, _ | .native .printLine, _ | .native .int, _ => trivial

private theorem Method.SoundIn.mono {m : Method} (h : m.SoundIn s) (hframes : s.frames.size ≤ t.frames.size) :
    m.SoundIn t := by
  cases m with
  | alloc => trivial
  | closure f => exact Store.IsChain.mono h hframes

/-- A sound value holds no frame that was not made. -/
private theorem Value.SoundIn.holds_eq_false {v : Value} (h : v.SoundIn s) (hs : 0 < s.frames.size)
    (hframes : ∀ f ∈ frames, s.frames.size ≤ f.index) : v.holds frames = false := by
  have hchain : ∀ f ∈ v.chain, f.index < s.frames.size := by
    match v, h with
    | .function _, h | .block _, h => exact Store.IsChain.lt_size h hs
    | .null, _ | .number _, _ | .string _, _ | .bool _, _ | .array _, _ | .builtin _, _ => exact List.forall_mem_nil _
    | .object _, _ | .classRef _, _ | .native _, _ => exact List.forall_mem_nil _
  exact Value.holds_eq_false.2 fun f hf hmem => Nat.not_le_of_lt (hchain f hf) (hframes f hmem)

end

namespace Store

variable {s t : Store} {frames copies : List FrameId}

/-- Both properties hold of every value and of every method. -/
theorem Holds.and {P Q : Value → Prop} {M N : Method → Prop} (h : s.Holds P M) (h' : s.Holds Q N) :
    s.Holds (fun v => P v ∧ Q v) fun m => M m ∧ N m where
  frames f hf q hq := ⟨h.frames f hf q hq, h'.frames f hf q hq⟩
  arrays a ha v hv := ⟨h.arrays a ha v hv, h'.arrays a ha v hv⟩
  properties c hc q hq := ⟨h.properties c hc q hq, h'.properties c hc q hq⟩
  methods c hc q hq := ⟨h.methods c hc q hq, h'.methods c hc q hq⟩
  instances i hi q hq := ⟨h.instances i hi q hq, h'.instances i hi q hq⟩

/-- The later store has new copies of the frames and is no different otherwise. -/
structure Copied (s : Store) (frames copies : List FrameId) (t : Store) : Prop where
  rest : t = { s with frames := t.frames }
  size : s.frames.size ≤ t.frames.size
  old : ∀ f : FrameId, f.index < s.frames.size → t.frame f = s.frame f
  same : List.Forall₂ (fun f c => t.frame c = s.frame f) frames copies
  new : ∀ c : FrameId, c ∈ copies ↔ s.frames.size ≤ c.index ∧ c.index < t.frames.size
  nodup : copies.Nodup

namespace Copied

private theorem nil (s : Store) : s.Copied [] [] s :=
  ⟨rfl, Nat.le_refl _, fun _ _ => rfl, .nil, fun _ => ⟨nofun, fun h => absurd h.2 (Nat.not_lt_of_le h.1)⟩, .nil⟩

/-- One more frame is copied after the ones further out. -/
private theorem cons (h : s.Copied frames copies t) {f : FrameId} (hf : f.index < s.frames.size) :
    s.Copied (f :: frames) (⟨t.frames.size⟩ :: copies) { t with frames := t.frames.push (t.frame f) } := by
  have hold : ∀ k : FrameId, k.index < t.frames.size →
      Store.frame { t with frames := t.frames.push (t.frame f) } k = t.frame k := by
    intro k hk
    rw [frame_push, if_neg (Nat.ne_of_lt hk)]
  refine ⟨?_, ?_, fun k hk => ?_, .cons ?_ ?_, fun c => ?_, ?_⟩
  · rw [h.rest]
  · rw [Array.size_push]
    exact Nat.le_succ_of_le h.size
  · rw [hold k (Nat.lt_of_lt_of_le hk h.size), h.old k hk]
  · rw [frame_push, if_pos rfl, h.old f hf]
  · have hnew : ∀ c ∈ copies, c.index < t.frames.size := fun c hc => ((h.new c).1 hc).2
    refine List.forall₂_iff_get.2 ⟨h.same.length_eq, fun i h₁ h₂ => ?_⟩
    rw [hold _ (hnew _ (List.get_mem _ _))]
    exact (List.forall₂_iff_get.1 h.same).2 i h₁ h₂
  · rw [List.mem_cons, h.new, Array.size_push]
    constructor
    · rintro (rfl | hc)
      · exact ⟨h.size, Nat.lt_succ_self _⟩
      · exact ⟨hc.1, Nat.lt_succ_of_lt hc.2⟩
    · intro hc
      rcases Nat.lt_succ_iff_lt_or_eq.1 hc.2 with hlt | heq
      · exact .inr ⟨hc.1, hlt⟩
      · exact .inl (congrArg FrameId.mk heq)
  · refine List.nodup_cons.2 ⟨fun hc => ?_, h.nodup⟩
    exact Nat.lt_irrefl _ ((h.new _).1 hc).2

/-- Every frame is as a frame was before. -/
private theorem exists_frame (h : s.Copied frames copies t) {k : FrameId} (hk : k.index < t.frames.size) :
    ∃ f, t.frame k = s.frame f := by
  by_cases hold : k.index < s.frames.size
  · exact ⟨k, h.old k hold⟩
  · have hmem := (h.new k).2 ⟨Nat.le_of_not_lt hold, hk⟩
    obtain ⟨i, hi, rfl⟩ := List.getElem_of_mem hmem
    have hi' : i < frames.length := h.same.length_eq ▸ hi
    exact ⟨frames.get ⟨i, hi'⟩, (List.forall₂_iff_get.1 h.same).2 i hi' hi⟩

/-- What holds of all values and methods before holds of them afterwards. -/
private theorem holds {P : Value → Prop} {M : Method → Prop} (h : s.Copied frames copies t) (hs : s.Holds P M) :
    t.Holds P M := by
  have hframes : ∀ k ∈ t.frames, k.bindings.All P := by
    intro k hk
    obtain ⟨i, hi, rfl⟩ := Array.getElem_of_mem hk
    obtain ⟨f, hf⟩ := h.exists_frame (k := ⟨i⟩) hi
    have hget : t.frame ⟨i⟩ = t.frames[i] := by
      rw [Store.frame, Array.getD_eq_getD_getElem?, Array.getElem?_eq_getElem hi]
      rfl
    rw [← hget, hf]
    exact hs.frame f
  rw [h.rest]
  exact { hs with frames := hframes }

theorem sound (h : s.Copied frames copies t) (hs : s.Sound) : t.Sound := by
  have hvalues : t.Holds (Value.SoundIn s) (Method.SoundIn s) := h.holds hs.values
  have hclasses : t.classes = s.classes := by rw [h.rest]
  have hinstances : t.instances = s.instances := by rw [h.rest]
  have hclass : t.classOf = s.classOf := by
    funext c
    rw [classOf, hclasses]
    rfl
  refine ⟨hvalues.mono (fun v hv => ?_) (fun m hm => hm.mono h.size), Nat.lt_of_lt_of_le hs.globals h.size,
    fun f i hi => ?_, fun i hi => ?_, ?_⟩
  · exact hv.mono h.size (Nat.le_of_eq (congrArg Array.size hclasses.symm))
      (Nat.le_of_eq (congrArg Array.size hinstances.symm))
  · rw [hinstances]
    by_cases hf : f.index < t.frames.size
    · obtain ⟨k, hk⟩ := h.exists_frame hf
      rw [hk] at hi
      exact hs.receivers k i hi
    · rw [frame_of_size_le (Nat.le_of_not_lt hf)] at hi
      cases hi
  · rw [hinstances] at hi
    have hobject : t.object i = s.object i := by
      rw [object, hinstances]
      rfl
    rw [hobject, hclasses]
    exact hs.classes i hi
  · intro c a above hl
    rw [hclass] at hl ⊢
    exact hs.lineages c a above hl

/-- Nothing that was there before holds one of the copies. -/
theorem heldOnlyBy (h : s.Copied frames copies t) (hs : s.Sound) (E : Value → Prop) : t.HeldOnlyBy E copies := by
  have hnew : ∀ c ∈ copies, s.frames.size ≤ c.index := fun c hc => ((h.new c).1 hc).1
  refine (h.holds hs.values).mono (fun v hv => .inr (hv.holds_eq_false hs.globals hnew)) ?_
  rintro m hm f rfl
  refine .inr fun g hg hmem => ?_
  exact Nat.not_le_of_lt (IsChain.lt_size hm hs.globals g hg) (hnew g hmem)

/-- A name that one of the frames binds is found in the copies with the same value, also later on. -/
theorem lookup? (h : s.Copied frames copies t) {u : Store} (hu : ∀ c ∈ copies, u.frame c = t.frame c)
    (hplain : ∀ f ∈ frames, (s.frame f).receiver = none) {x : String}
    (hx : ∃ f ∈ frames, (s.frame f).bindings.has x = true) (outer outer' : Env) :
    ∃ v, s.lookup? (frames ++ outer) x = some (.value v) ∧ u.lookup? (copies ++ outer') x = some (.value v) := by
  have hsame : List.Forall₂ (fun f c => u.frame c = s.frame f) frames copies := by
    refine List.forall₂_iff_get.2 ⟨h.same.length_eq, fun i h₁ h₂ => ?_⟩
    rw [hu _ (List.get_mem _ _)]
    exact (List.forall₂_iff_get.1 h.same).2 i h₁ h₂
  clear h hu
  induction hsame with
  | nil =>
    obtain ⟨f, hf, -⟩ := hx
    cases hf
  | @cons f c frames copies hfc _ ih =>
    obtain ⟨hf, hplain⟩ := List.forall_mem_cons.1 hplain
    -- the nearest frame binds the name, or one further out does
    have hown : s.own? f x = ((s.frame f).bindings.get? x).map .value := by
      unfold own?
      rw [hf]
      cases (s.frame f).bindings.get? x <;> rfl
    have hown' : u.own? c x = ((s.frame f).bindings.get? x).map .value := by
      unfold own?
      rw [hfc, hf]
      cases (s.frame f).bindings.get? x <;> rfl
    unfold Store.lookup?
    rw [List.cons_append, List.cons_append, List.findSome?_cons, List.findSome?_cons, hown, hown']
    cases hget : (s.frame f).bindings.get? x with
    | some v => exact ⟨v, rfl, rfl⟩
    | none =>
      obtain ⟨k, hk, hkx⟩ := hx
      rcases List.mem_cons.1 hk with rfl | hk
      · rw [Bindings.has, hget] at hkx
        cases hkx
      · exact ih hplain ⟨k, hk, hkx⟩

end Copied

/-- Copying a chain. -/
theorem run_snapshot (hframes : ∀ f ∈ frames, f ≠ .globals ∧ f.index < s.frames.size) :
    ∃ copies t, (snapshot (some .globals) (frames ++ [.globals])).run s = (copies ++ [.globals], t) ∧
      s.Copied frames copies t := by
  induction frames with
  | nil => exact ⟨[], s, rfl, .nil s⟩
  | cons f frames ih =>
    obtain ⟨⟨hne, hlt⟩, hframes⟩ := List.forall_mem_cons.1 hframes
    obtain ⟨copies, t, hrun, hcopied⟩ := ih hframes
    refine ⟨⟨t.frames.size⟩ :: copies, { t with frames := t.frames.push (t.frame f) }, ?_, hcopied.cons hlt⟩
    have hstop : ¬ some f = some FrameId.globals := fun h => hne (Option.some.inj h)
    rw [List.cons_append, snapshot, if_neg hstop]
    change (let (outer, t) := (snapshot (some .globals) (frames ++ [.globals])).run s
      ((⟨t.frames.size⟩ :: outer, { t with frames := t.frames.push (t.frame f) }) : Env × Store)) = _
    rw [hrun]
    rfl

end Store

end ObjScript
