import Mathlib.Logic.Basic
import ObjScript.Proofs.Store.Later

/-!
# Writing to a name

A frame that carries a bound method owns a name in one of three ways: it binds the name itself, or a property of its
receiver shows through it, or a method does.  A write goes to the frame's own bindings unless there is none and a
property shows; then it goes to the property (`Store.Overwrites`).  The next reading looks at the same three places in
the same order, and so it finds what was written.

What a frame makes of a name depends on its bindings of this name, on the property of this name and on the methods of
the classes (`own?_ext`).  Hence a write is seen by the readings of this name alone, and a frame that did not own
the name does not own it afterwards (`Overwrites.own?_of_ne`, `Overwrites.own?_of_not_owns`).  The main statement is
`writes_are_read_back`.
-/

namespace ObjScript

/-- So far outward there is a frame of the chain. -/
private theorem Env.exists_ancestor {env : Env} (h : env ≠ []) (d : Nat) :
    ∃ f outer, env.ancestor d = f :: outer ∧ f ∈ env := by
  induction env, d using Env.ancestor.induct with
  | case1 env =>
    obtain ⟨f, outer, rfl⟩ := List.exists_cons_of_ne_nil h
    exact ⟨f, outer, by rw [ancestor], List.mem_cons_self⟩
  | case2 => exact absurd rfl h
  | case3 f d hd => exact ⟨f, [], by rw [ancestor]; exact hd, List.mem_cons_self⟩
  | case4 k outer d hne ih =>
    obtain ⟨f, rest, hancestor, hf⟩ := ih (fun h => hne h)
    exact ⟨f, rest, by rw [ancestor, hancestor]; exact hne, List.mem_cons_of_mem k hf⟩

namespace Store

variable {s t : Store} {f k : FrameId} {i : InstanceId} {x y : String} {v : Value}

/-! ### What a frame makes of a name -/

private theorem findMethod?_congr (hclasses : t.classes = s.classes) (visible : Method → Bool) (x : String)
    (line : List ClassId) : t.findMethod? visible x line = s.findMethod? visible x line := by
  have hclass : t.classOf = s.classOf := by
    funext c
    rw [classOf, hclasses]
    rfl
  induction line with
  | nil => rfl
  | cons c above ih => rw [findMethod?, findMethod?, hclass, ih]

/-- A member depends on the property of its name, on the class of the instance and on the classes. -/
private theorem member?_congr (hclasses : t.classes = s.classes) (hcls : (t.object i).cls = (s.object i).cls)
    (hproperty : (t.object i).properties.get? x = (s.object i).properties.get? x) :
    t.member? i x = s.member? i x := by
  have hline : t.line (t.object i).cls = s.line (s.object i).cls := by
    rw [hcls, line, classOf, hclasses]
    rfl
  unfold member?
  rw [hproperty, hline, findMethod?_congr hclasses]

private theorem own?_ext (hclasses : t.classes = s.classes) (hreceiver : (t.frame k).receiver = (s.frame k).receiver)
    (hbinding : (t.frame k).bindings.get? x = (s.frame k).bindings.get? x)
    (hobject : ∀ i, (s.frame k).receiver = some i →
      (t.object i).cls = (s.object i).cls ∧ (t.object i).properties.get? x = (s.object i).properties.get? x) :
    t.own? k x = s.own? k x := by
  unfold own?
  rw [hbinding, hreceiver]
  cases (s.frame k).bindings.get? x with
  | some w => rfl
  | none =>
    cases hi : (s.frame k).receiver with
    | none => rfl
    | some i =>
      obtain ⟨hcls, hproperty⟩ := hobject i hi
      exact member?_congr hclasses hcls hproperty

/-- What a frame makes of a name depends on the frame, the classes and the instances. -/
theorem own?_congr (hframe : t.frame k = s.frame k) (hclasses : t.classes = s.classes)
    (hinstances : t.instances = s.instances) (x : String) : t.own? k x = s.own? k x := by
  refine own?_ext hclasses (by rw [hframe]) (by rw [hframe]) fun i _ => ?_
  rw [object, hinstances]
  exact ⟨rfl, rfl⟩

private theorem not_has_iff {α : Type} {b : Bindings α} : b.has x = false ↔ b.get? x = none := by
  rw [Bindings.has, Option.isSome_eq_false_iff, Option.isNone_iff_eq_none]

/-- A frame that was not made yet owns nothing. -/
private theorem lt_size_of_owns (h : s.owns f x = true) : f.index < s.frames.size := by
  refine Nat.lt_of_not_le fun hle => ?_
  unfold owns own? at h
  rw [frame_of_size_le hle] at h
  cases h

/-- An instance that was not made yet has no properties. -/
private theorem lt_size_of_has (h : (s.object i).properties.has x = true) : i.index < s.instances.size := by
  refine Nat.lt_of_not_le fun hle => ?_
  rw [object, Array.getD_eq_getD_getElem?, Array.getElem?_eq_none hle] at h
  cases h

/-! ### What a write does -/

/-- The property of the instance shows through the frame. -/
structure Shows (s : Store) (f : FrameId) (x : String) (i : InstanceId) : Prop where
  receiver : (s.frame f).receiver = some i
  unbound : (s.frame f).bindings.has x = false
  property : (s.object i).properties.has x = true

/-- A frame owns the properties that show through it. -/
theorem Shows.owns (h : s.Shows f x i) : s.owns f x = true := by
  obtain ⟨w, hw⟩ := Option.isSome_iff_exists.1 h.property
  unfold Store.owns own? member?
  rw [not_has_iff.1 h.unbound, h.receiver]
  simp only [hw, Option.isSome_some]

/-- The value was written to the name in the frame and nowhere else: to the property that shows through the frame, or
else to the frame's own binding. -/
structure Overwrites (s t : Store) (f : FrameId) (x : String) (v : Value) : Prop where
  arrays : t.arrays = s.arrays
  classes : t.classes = s.classes
  frames : t.frames.size = s.frames.size
  instances : t.instances.size = s.instances.size
  receiver : ∀ k, (t.frame k).receiver = (s.frame k).receiver
  cls : ∀ i, (t.object i).cls = (s.object i).cls
  binding : ∀ k y, k ≠ f ∨ y ≠ x → (t.frame k).bindings.get? y = (s.frame k).bindings.get? y
  property : ∀ i y, (s.frame f).receiver ≠ some i ∨ y ≠ x →
    (t.object i).properties.get? y = (s.object i).properties.get? y
  shown : ∀ i, s.Shows f x i → t.frames = s.frames ∧ (t.object i).properties.get? x = some v
  own : (∀ i, ¬ s.Shows f x i) → t.instances = s.instances ∧ (t.frame f).bindings.get? x = some v

private theorem overwrites_putBinding (hf : f.index < s.frames.size) (hshows : ∀ i, ¬ s.Shows f x i) :
    s.Overwrites (s.putBinding f x v) f x v where
  arrays := rfl
  classes := rfl
  frames := Array.size_modify
  instances := rfl
  receiver k := by
    rw [frame_putBinding]
    split
    · next h => rw [h.1]
    · rfl
  cls _ := rfl
  binding k y h := by
    rw [frame_putBinding]
    split
    · next hk =>
      rw [hk.1]
      exact Bindings.get?_put_of_ne _ (h.resolve_left (not_not.2 hk.1)) v
    · rfl
  property _ _ _ := rfl
  shown i hi := absurd hi (hshows i)
  own _ := by
    rw [frame_putBinding, if_pos ⟨rfl, hf⟩]
    exact ⟨rfl, Bindings.get?_put_self _ x v⟩

private theorem overwrites_putProperty (hshows : s.Shows f x i) : s.Overwrites (s.putProperty i x v) f x v where
  arrays := rfl
  classes := rfl
  frames := rfl
  instances := Array.size_modify
  receiver _ := rfl
  cls k := by
    rw [object_putProperty]
    split
    · next h => rw [h.1]
    · rfl
  binding _ _ _ := rfl
  property k y h := by
    rw [object_putProperty]
    split
    · next hk =>
      rw [hk.1] at h ⊢
      exact Bindings.get?_put_of_ne _ (h.resolve_left (not_not.2 hshows.receiver)) v
    · rfl
  shown k hk := by
    obtain rfl : i = k := Option.some.inj (hshows.receiver.symm.trans hk.receiver)
    rw [object_putProperty, if_pos ⟨rfl, lt_size_of_has hshows.property⟩]
    exact ⟨rfl, Bindings.get?_put_self _ x v⟩
  own h := absurd hshows (h i)

theorem overwrites_define (hf : f.index < s.frames.size) (x : String) (v : Value) :
    s.Overwrites (s.define f x v) f x v := by
  by_cases hshows : ∃ i, s.Shows f x i
  · obtain ⟨i, hi⟩ := hshows
    have hdefine : s.define f x v = s.putProperty i x v := by
      unfold define
      rw [hi.receiver]
      dsimp only
      rw [hi.unbound, hi.property]
      rfl
    rw [hdefine]
    exact overwrites_putProperty hi
  · have hnone : ∀ i, ¬ s.Shows f x i := not_exists.1 hshows
    rcases s.define_cases f x v with hdefine | ⟨i, hreceiver, hunbound, hproperty, -⟩
    · rw [hdefine]
      exact overwrites_putBinding hf hnone
    · exact absurd ⟨hreceiver, hunbound, hproperty⟩ (hnone i)

/-! ### What is read afterwards -/

namespace Overwrites

/-- The frame that was written to has the value. -/
theorem own?_self (h : s.Overwrites t f x v) : t.own? f x = some (.value v) := by
  by_cases hshows : ∃ i, s.Shows f x i
  · obtain ⟨i, hi⟩ := hshows
    obtain ⟨hframes, hproperty⟩ := h.shown i hi
    have hframe : t.frame f = s.frame f := by
      rw [frame, hframes]
      rfl
    unfold own? member?
    rw [hframe, not_has_iff.1 hi.unbound, hi.receiver]
    simp only [hproperty]
  · unfold own?
    rw [(h.own (not_exists.1 hshows)).2]

/-- No frame makes anything else of another name. -/
private theorem own?_of_ne (h : s.Overwrites t f x v) (hy : y ≠ x) (k : FrameId) : t.own? k y = s.own? k y :=
  own?_ext h.classes (h.receiver k) (h.binding k y (.inr hy)) fun i _ => ⟨h.cls i, h.property i y (.inr hy)⟩

/-- A frame that did not own the name still does not. -/
private theorem own?_of_not_owns (h : s.Overwrites t f x v) (hf : s.owns f x = true) (hk : s.owns k x = false) :
    t.own? k x = none := by
  have hne : k ≠ f := by
    rintro rfl
    rw [hk] at hf
    cases hf
  have hnone : s.own? k x = none := Option.not_isSome_iff_eq_none.1 (Bool.eq_false_iff.1 hk)
  rw [own?_ext h.classes (h.receiver k) (h.binding k x (.inl hne)) fun i hi => ⟨h.cls i, ?_⟩, hnone]
  by_cases hshows : s.Shows f x i
  · -- the property would show through this frame as well
    have hunbound : (s.frame k).bindings.get? x = none := by
      unfold own? at hnone
      split at hnone
      · cases hnone
      · assumption
    have : s.owns k x = true := Shows.owns ⟨hi, not_has_iff.2 hunbound, hshows.property⟩
    rw [hk] at this
    cases this
  · by_cases hreceiver : (s.frame f).receiver = some i
    · have hown := h.own fun j hj => hshows (Option.some.inj (hreceiver.symm.trans hj.receiver) ▸ hj)
      rw [object, hown.1]
      rfl
    · exact h.property i x (.inl hreceiver)

private theorem lookup?_of_ne (h : s.Overwrites t f x v) (hy : y ≠ x) (env : Env) :
    t.lookup? env y = s.lookup? env y := by
  unfold lookup?
  congr 1
  funext k
  exact h.own?_of_ne hy k

/-- What is read under another name is the same value: a method is bound on the next new frame in both stores. -/
private theorem read_of_ne (h : s.Overwrites t f x v) (hy : y ≠ x) (env : Env) :
    ((read env y).run t).1 = ((read env y).run s).1 := by
  unfold read
  rw [StateT.run_bind, StateT.run_get, pure_bind, StateT.run_bind, StateT.run_get, pure_bind, h.lookup?_of_ne hy]
  cases s.lookup? env y with
  | none => rfl
  | some m =>
    cases m with
    | value w => rfl
    | method g i superclass =>
      change Value.function { g with env := ⟨t.frames.size⟩ :: g.env } =
        Value.function { g with env := ⟨s.frames.size⟩ :: g.env }
      rw [h.frames]

end Overwrites

private theorem read_of_lookup? {env : Env} (h : s.lookup? env x = some (.value v)) : ((read env x).run s).1 = v := by
  unfold read
  rw [StateT.run_bind, StateT.run_get, pure_bind, h]
  rfl

/-- The nearest owner decides. -/
private theorem lookup?_append {inner outer : Env} {m : Member} (hinner : ∀ k ∈ inner, s.own? k x = none)
    (hf : s.own? f x = some m) : s.lookup? (inner ++ f :: outer) x = some m := by
  unfold lookup?
  rw [List.findSome?_append, List.findSome?_eq_none_iff.2 hinner, Option.none_or, List.findSome?_cons, hf]

/-- A write through the chain goes to the nearest owner, or there is none. -/
private theorem assign?_cases (s : Store) (env : Env) (x : String) (v : Value) :
    (s.assign? env x v = none ∧ ∀ f ∈ env, s.owns f x = false) ∨
      ∃ inner f outer, env = inner ++ f :: outer ∧ (∀ k ∈ inner, s.owns k x = false) ∧ s.owns f x = true ∧
        s.assign? env x v = some (s.define f x v) := by
  unfold assign?
  cases hfind : env.find? (s.owns · x) with
  | none =>
    refine .inl ⟨rfl, fun f hf => ?_⟩
    simpa using List.find?_eq_none.1 hfind f hf
  | some f =>
    obtain ⟨hf, inner, outer, henv, hinner⟩ := List.find?_eq_some_iff_append.1 hfind
    exact .inr ⟨inner, f, outer, henv, fun k hk => by simpa using hinner k hk, hf, rfl⟩

/-- **Writing to a name.**  A write through a chain is dropped just if no frame of the chain owns the name.  Otherwise
it goes to the nearest owner and nowhere else; the name is then read from the chain with the new value, and every
other name is read from every chain as before.  After a write to the frame that lies some steps outward that frame
owns the name, and the reading that begins there gives the new value. -/
theorem writes_are_read_back (s : Store) {env : Env} (henv : env ≠ []) (hframes : ∀ f ∈ env, f.index < s.frames.size)
    (x : String) (v : Value) :
    (s.assign? env x v = none ↔ ∀ f ∈ env, s.owns f x = false) ∧
    (∀ t, s.assign? env x v = some t → ∃ inner f outer, env = inner ++ f :: outer ∧
      (∀ k ∈ inner, s.owns k x = false) ∧ s.owns f x = true ∧ s.Overwrites t f x v ∧
      ((read env x).run t).1 = v ∧
      ∀ chain y, y ≠ x →
        t.lookup? chain y = s.lookup? chain y ∧ ((read chain y).run t).1 = ((read chain y).run s).1) ∧
    ∀ d, ∃ f outer, env.ancestor d = f :: outer ∧ f ∈ env ∧
      (s.defineIn (env.ancestor d) x v).owns f x = true ∧
      ((read (env.ancestor d) x).run (s.defineIn (env.ancestor d) x v)).1 = v := by
  refine ⟨?_, fun t ht => ?_, fun d => ?_⟩
  · rcases s.assign?_cases env x v with ⟨hnone, hall⟩ | ⟨inner, f, outer, rfl, -, howns, hsome⟩
    · exact ⟨fun _ => hall, fun _ => hnone⟩
    · refine ⟨fun h => ?_, fun h => ?_⟩
      · rw [hsome] at h
        cases h
      · rw [h f (by simp)] at howns
        cases howns
  · rcases s.assign?_cases env x v with ⟨hnone, -⟩ | ⟨inner, f, outer, rfl, hinner, howns, hsome⟩
    · rw [hnone] at ht
      cases ht
    · obtain rfl : s.define f x v = t := Option.some.inj (hsome.symm.trans ht)
      have hwrites := overwrites_define (lt_size_of_owns howns) x v
      refine ⟨inner, f, outer, rfl, hinner, howns, hwrites, ?_, fun chain y hy => ?_⟩
      · have hnone : ∀ k ∈ inner, (s.define f x v).own? k x = none :=
          fun k hk => hwrites.own?_of_not_owns howns (hinner k hk)
        exact read_of_lookup? (lookup?_append hnone hwrites.own?_self)
      · exact ⟨hwrites.lookup?_of_ne hy chain, hwrites.read_of_ne hy chain⟩
  · obtain ⟨f, outer, hancestor, hf⟩ := Env.exists_ancestor henv d
    have hself := (overwrites_define (hframes f hf) x v).own?_self
    refine ⟨f, outer, hancestor, hf, ?_, ?_⟩
    · rw [hancestor]
      exact Option.isSome_of_eq_some hself
    · rw [hancestor]
      have hinner : ∀ k ∈ ([] : Env), (s.define f x v).own? k x = none := fun k hk => by cases hk
      exact read_of_lookup? (lookup?_append hinner hself)

/-- The store of a method that runs on an instance with a property `count` and was bound inside a function that has a
local `step`; the globals have a `count` of their own. -/
def inMethod : Store where
  frames := #[⟨[("count", .null)], none⟩, ⟨[("step", .null)], none⟩, boundFrame ⟨0⟩ none]
  arrays := #[]
  classes := #[⟨"Counter", [], [("count", .null)], [("alloc", .alloc)]⟩]
  instances := #[⟨⟨0⟩, [("count", .null)]⟩]

/-- Behind the local frame the property is nearer than the global of the same name: it is written and read. -/
theorem writes_are_read_back_through_method : ∃ t, inMethod.assign? [⟨1⟩, ⟨2⟩, ⟨0⟩] "count" (.bool true) = some t ∧
    t.frames = inMethod.frames ∧ (t.object ⟨0⟩).properties.get? "count" = some (.bool true) ∧
    ((read [⟨1⟩, ⟨2⟩, ⟨0⟩] "count").run t).1 = .bool true ∧ ((read [⟨0⟩] "step").run t).1 = .null := by
  have hframes : ∀ f ∈ ([⟨1⟩, ⟨2⟩, ⟨0⟩] : Env), f.index < inMethod.frames.size := by decide
  have hwrites := (writes_are_read_back inMethod (List.cons_ne_nil _ _) hframes "count" (.bool true)).2.1
  obtain ⟨t, ht⟩ : ∃ t, inMethod.assign? [⟨1⟩, ⟨2⟩, ⟨0⟩] "count" (.bool true) = some t := ⟨_, rfl⟩
  obtain ⟨inner, f, outer, henv, hinner, howns, hover, hread, hothers⟩ := hwrites t ht
  have hshows : inMethod.Shows ⟨2⟩ "count" ⟨0⟩ := ⟨rfl, rfl, rfl⟩
  -- the local frame does not own the name, the next one does
  have hf : f = ⟨2⟩ := by
    match inner, henv with
    | [], henv =>
      obtain ⟨rfl, -⟩ := List.cons.inj henv
      cases howns
    | [_], henv =>
      obtain ⟨-, henv⟩ := List.cons.inj henv
      exact (List.cons.inj henv).1.symm
    | _ :: k :: inner, henv =>
      obtain ⟨-, henv⟩ := List.cons.inj henv
      obtain ⟨rfl, -⟩ := List.cons.inj henv
      exact absurd (hinner ⟨2⟩ (by simp)) (by decide)
  subst hf
  exact ⟨t, ht, (hover.shown _ hshows).1, (hover.shown _ hshows).2, hread, (hothers _ "step" (by decide)).2⟩

end Store

end ObjScript
