import ObjScript.Proofs.Bindings
import ObjScript.Store.Env

/-!
# What a step does to the frames

A new frame leaves all others as they were, and so does a binding in one frame.  A frame never loses a name
or its receiver.
-/

namespace ObjScript

namespace Store

theorem getD_push {α : Type} (a : Array α) (new : α) (j : Nat) (d : α) :
    (a.push new).getD j d = if j = a.size then new else a.getD j d := by
  simp only [Array.getD_eq_getD_getElem?, Array.getElem?_push]
  split <;> rfl

/-- Changing an entry changes no other one, and nothing at all if there is no such entry. -/
theorem getD_modify {α : Type} (a : Array α) (i : Nat) (g : α → α) (j : Nat) (d : α) :
    (a.modify i g).getD j d = if j = i ∧ i < a.size then g (a.getD i d) else a.getD j d := by
  simp only [Array.getD_eq_getD_getElem?, Array.getElem?_modify]
  by_cases hj : j = i
  · subst hj
    by_cases hlt : j < a.size
    · simp [hlt]
    · simp [hlt]
  · simp [hj, Ne.symm hj]

variable {s : Store} {f k : FrameId} {x y : String} {v : Value}

theorem frame_push (s : Store) (new : Frame) (f : FrameId) :
    Store.frame { s with frames := s.frames.push new } f =
      if f.index = s.frames.size then new else s.frame f :=
  getD_push s.frames new f.index _

/-- A frame that was not made yet binds nothing. -/
theorem frame_of_size_le (h : s.frames.size ≤ f.index) : s.frame f = ⟨[], none⟩ := by
  rw [frame, Array.getD_eq_getD_getElem?, Array.getElem?_eq_none h]
  rfl

theorem frame_putBinding (s : Store) (f : FrameId) (x : String) (v : Value) (k : FrameId) :
    (s.putBinding f x v).frame k =
      if k = f ∧ f.index < s.frames.size then { s.frame f with bindings := (s.frame f).bindings.put x v }
      else s.frame k := by
  have hid : k = f ↔ k.index = f.index := Iff.of_eq (FrameId.mk.injEq ..)
  simp only [hid]
  exact getD_modify s.frames f.index _ k.index _

/-- Binding a name in a frame takes no name away, in that frame or in another one. -/
theorem has_define (h : (s.frame k).bindings.has y = true) : ((s.define f x v).frame k).bindings.has y = true := by
  have hput : ((s.putBinding f x v).frame k).bindings.has y = true := by
    rw [frame_putBinding]
    split
    · next hk =>
      rw [hk.1] at h
      exact (Bindings.has_put _ x y v).2 (.inr h)
    · exact h
  unfold define
  split
  · split
    · exact h
    · exact hput
  · exact hput

/-- Binding a name in a frame without a receiver adds no other name. -/
theorem has_of_define (hr : (s.frame f).receiver = none)
    (h : ((s.define f x v).frame k).bindings.has y = true) :
    (k = f ∧ y = x) ∨ (s.frame k).bindings.has y = true := by
  unfold define at h
  rw [hr] at h
  dsimp only at h
  rw [frame_putBinding] at h
  split at h
  · next hk =>
    rcases (Bindings.has_put _ x y v).1 h with rfl | h
    · exact .inl ⟨hk.1, rfl⟩
    · exact .inr (hk.1 ▸ h)
  · exact .inr h

/-- A name is bound in a frame without a receiver. -/
theorem has_define_self (hr : (s.frame f).receiver = none) (hf : f.index < s.frames.size) :
    ((s.define f x v).frame f).bindings.has x = true := by
  unfold define
  rw [hr]
  dsimp only
  rw [frame_putBinding, if_pos ⟨rfl, hf⟩]
  exact (Bindings.has_put _ x x v).2 (.inl rfl)

theorem receiver_define (s : Store) (f : FrameId) (x : String) (v : Value) (k : FrameId) :
    ((s.define f x v).frame k).receiver = (s.frame k).receiver := by
  have hput : ((s.putBinding f x v).frame k).receiver = (s.frame k).receiver := by
    rw [frame_putBinding]
    split
    · next hk => rw [hk.1]
    · rfl
  unfold define
  split
  · split
    · rfl
    · exact hput
  · exact hput

theorem size_define (s : Store) (f : FrameId) (x : String) (v : Value) :
    (s.define f x v).frames.size = s.frames.size := by
  have hput : (s.putBinding f x v).frames.size = s.frames.size := Array.size_modify
  unfold define
  split
  · split
    · rfl
    · exact hput
  · exact hput

/-- A frame without a receiver owns the names that it binds. -/
theorem owns_of_receiver (hr : (s.frame f).receiver = none) : s.owns f x = (s.frame f).bindings.has x := by
  unfold owns own? Bindings.has
  rw [hr]
  cases (s.frame f).bindings.get? x <;> rfl

end Store

end ObjScript
