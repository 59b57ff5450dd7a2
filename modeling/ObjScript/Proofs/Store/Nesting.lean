import Mathlib.Data.List.Nodup
import Mathlib.Data.List.Perm.Subperm
import Mathlib.Logic.Relation
import Mathlib.Order.WellFounded
import ObjScript.Store.Text

/-!
# Arrays within arrays

Arrays are shared, and an array can come to lie within itself.  Such a value has no text; every other one has
(`exists_text?_iff`), also if it holds an array twice.

A bound on the nesting is enough as soon as it exceeds the number of arrays: where the text is still missing then, the
arrays that were entered on the way down would be more than there are (`bound_add_length_le`).  So the bound does not
show, and the text of an array is made from the texts of its elements (`text?_array`).  For a value without a text
this is a recursion that never ends (`cyclic_iff_endless`).
-/

namespace ObjScript

/-! ### Results for the elements of a list -/

section MapM

variable {α β : Type} {f g : α → Option β} {l : List α}

theorem exists_mapM_iff : (∃ ys, l.mapM f = some ys) ↔ ∀ x ∈ l, ∃ y, f x = some y := by
  induction l with
  | nil => simp
  | cons x l ih =>
    rw [List.forall_mem_cons, ← ih, List.mapM_cons]
    cases f x with
    | none => simp
    | some y => cases l.mapM f <;> simp

private theorem mapM_congr (h : ∀ x ∈ l, f x = g x) : l.mapM f = l.mapM g := by
  induction l with
  | nil => rfl
  | cons x l ih =>
    obtain ⟨hx, hl⟩ := List.forall_mem_cons.1 h
    rw [List.mapM_cons, List.mapM_cons, hx, ih hl]

end MapM

namespace Store

variable {s : Store} {n : Nat} {v w : Value} {a b : ArrayId} {t : String}

/-! ### Arrays that lie within themselves -/

/-- The second array is an element of the first one. -/
def Nests (s : Store) (a b : ArrayId) : Prop :=
  .array b ∈ s.elements a

/-- The value is an array in which, at whatever depth, there is an array that lies within itself. -/
def Cyclic (s : Store) (v : Value) : Prop :=
  ∃ a b, v = .array a ∧ Relation.ReflTransGen s.Nests a b ∧ Relation.TransGen s.Nests b b

private theorem Cyclic.array_of_nests (h : s.Cyclic (.array b)) (hab : s.Nests a b) : s.Cyclic (.array a) := by
  obtain ⟨_, c, ⟨⟩, hreach, hself⟩ := h
  exact ⟨a, c, rfl, .head hab hreach, hself⟩

/-- Some element of such an array is such an array again. -/
private theorem Cyclic.exists_nests (h : s.Cyclic v) : ∃ a b, v = .array a ∧ s.Nests a b ∧ s.Cyclic (.array b) := by
  obtain ⟨a, c, rfl, hreach, hself⟩ := h
  rcases hreach.cases_head with rfl | ⟨b, hab, hreach⟩
  · obtain ⟨b, hab, hback⟩ := Relation.TransGen.head'_iff.1 hself
    exact ⟨a, b, rfl, hab, b, b, rfl, .refl, .tail' hback hab⟩
  · exact ⟨a, b, rfl, hab, b, c, rfl, hreach, hself⟩

/-- An array with elements is one of the store. -/
private theorem Nests.lt_size (h : s.Nests a b) : a.index < s.arrays.size := by
  by_contra hlt
  have hnone : s.elements a = #[] := by
    rw [elements, Array.getD_eq_getD_getElem?, Array.getElem?_eq_none (not_lt.1 hlt)]
    rfl
  rw [Nests, hnone] at h
  exact Array.not_mem_empty _ h

/-! ### Texts with a bound -/

private theorem textUpTo_array : s.textUpTo (n + 1) (.array a) =
    ((s.elements a).toList.mapM (s.textUpTo n)).map fun parts => "[" ++ ", ".intercalate parts ++ "]" := by
  cases hparts : (s.elements a).toList.mapM (s.textUpTo n) <;> simp [textUpTo, hparts]

/-- Only an array can be without a text. -/
private theorem exists_array_of_textUpTo (h : s.textUpTo n v = none) : ∃ a, v = .array a := by
  cases v with
  | array a => exact ⟨a, rfl⟩
  | _ => cases n <;> simp [textUpTo] at h

private theorem exists_textUpTo_array :
    (∃ t, s.textUpTo (n + 1) (.array a) = some t) ↔ ∀ w ∈ s.elements a, ∃ t, s.textUpTo n w = some t := by
  rw [textUpTo_array]
  simp only [Option.map_eq_some_iff, ← Array.mem_toList_iff, ← exists_mapM_iff]
  exact ⟨fun ⟨_, parts, hparts, _⟩ => ⟨parts, hparts⟩, fun ⟨parts, hparts⟩ => ⟨_, parts, hparts, rfl⟩⟩

/-- An array lacks a text exactly if one of its elements does. -/
private theorem textUpTo_array_eq_none_iff :
    s.textUpTo (n + 1) (.array a) = none ↔ ∃ w ∈ s.elements a, s.textUpTo n w = none := by
  rw [← not_iff_not]
  push Not
  simp only [Option.ne_none_iff_exists']
  exact exists_textUpTo_array

/-- With more room the text is the same. -/
private theorem textUpTo_succ (h : s.textUpTo n v = some t) : s.textUpTo (n + 1) v = some t := by
  induction n generalizing v t with
  | zero => cases v <;> first | exact h | cases h
  | succ n ih =>
    cases v with
    | array a =>
      have hparts := exists_textUpTo_array.1 ⟨t, h⟩
      have hsame : (s.elements a).toList.mapM (s.textUpTo n) = (s.elements a).toList.mapM (s.textUpTo (n + 1)) := by
        refine mapM_congr fun w hw => ?_
        obtain ⟨t, ht⟩ := hparts w (Array.mem_toList_iff.1 hw)
        rw [ht, ih ht]
      rw [textUpTo_array] at h ⊢
      rwa [← hsame]
    | _ => exact h

/-- An array within itself has no text, whatever the bound. -/
theorem Cyclic.textUpTo_eq_none (h : s.Cyclic v) (n : Nat) : s.textUpTo n v = none := by
  induction n generalizing v with
  | zero =>
    obtain ⟨a, _, rfl, _⟩ := h
    rfl
  | succ n ih =>
    obtain ⟨a, b, rfl, hab, hb⟩ := h.exists_nests
    exact textUpTo_array_eq_none_iff.2 ⟨_, hab, ih hb⟩

/-- Arrays that were entered on the way down to an array, each of them once. -/
structure Entered (s : Store) (entered : List ArrayId) (a : ArrayId) : Prop where
  nodup : entered.Nodup
  lt_size : ∀ b ∈ entered, b.index < s.arrays.size
  reaches : ∀ b ∈ entered, Relation.TransGen s.Nests b a

namespace Entered

variable {entered : List ArrayId}

private theorem nil (s : Store) (a : ArrayId) : s.Entered [] a :=
  ⟨.nil, List.forall_mem_nil _, List.forall_mem_nil _⟩

/-- An array that is not within itself was not entered before. -/
private theorem cons (h : s.Entered entered a) (hab : s.Nests a b) (ha : ¬ s.Cyclic (.array a)) :
    s.Entered (a :: entered) b where
  nodup := List.nodup_cons.2 ⟨fun hmem => ha ⟨a, a, rfl, .refl, h.reaches a hmem⟩, h.nodup⟩
  lt_size := List.forall_mem_cons.2 ⟨hab.lt_size, h.lt_size⟩
  reaches := List.forall_mem_cons.2 ⟨.single hab, fun c hc => (h.reaches c hc).tail hab⟩

private theorem length_le (h : s.Entered entered a) : entered.length ≤ s.arrays.size := by
  have hinjective : Function.Injective ArrayId.index := fun ⟨_⟩ ⟨_⟩ => congrArg ArrayId.mk
  have hnodup : (entered.map ArrayId.index).Nodup := h.nodup.map hinjective
  have hsub : entered.map ArrayId.index ⊆ List.range s.arrays.size := by
    intro i hi
    obtain ⟨b, hb, rfl⟩ := List.mem_map.1 hi
    exact List.mem_range.2 (h.lt_size b hb)
  calc entered.length = (entered.map ArrayId.index).length := (List.length_map _).symm
    _ ≤ (List.range s.arrays.size).length := (List.subperm_of_subset hnodup hsub).length_le
    _ = s.arrays.size := List.length_range

end Entered

/-- Where a bound is too small, it and the arrays that were entered are no more than there are arrays. -/
private theorem bound_add_length_le {entered : List ArrayId} (h : s.textUpTo n (.array a) = none)
    (ha : ¬ s.Cyclic (.array a))
    (hentered : s.Entered entered a) : n + entered.length ≤ s.arrays.size := by
  induction n generalizing a entered with
  | zero =>
    rw [Nat.zero_add]
    exact hentered.length_le
  | succ n ih =>
    obtain ⟨w, hw, hnone⟩ := textUpTo_array_eq_none_iff.1 h
    obtain ⟨b, rfl⟩ := exists_array_of_textUpTo hnone
    have hlength := ih hnone (fun hb => ha (hb.array_of_nests hw)) (hentered.cons hw ha)
    rw [List.length_cons] at hlength
    omega

/-! ### The text of a value -/

/-- A value has a text unless there is an array in it that lies within itself. -/
theorem exists_text?_iff : (∃ t, s.text? v = some t) ↔ ¬ s.Cyclic v := by
  constructor
  · rintro ⟨t, ht⟩ hv
    rw [text?, hv.textUpTo_eq_none] at ht
    cases ht
  · intro hv
    by_contra hnone
    have hnone := Option.eq_none_iff_forall_ne_some.2 fun t ht => hnone ⟨t, ht⟩
    obtain ⟨a, rfl⟩ := exists_array_of_textUpTo hnone
    have hlength := bound_add_length_le hnone hv (.nil s a)
    rw [List.length_nil] at hlength
    omega

theorem text?_eq_none_iff : s.text? v = none ↔ s.Cyclic v := by
  rw [← not_iff_not, ← exists_text?_iff]
  exact Option.ne_none_iff_exists'

/-- The text of an array is made from the texts of its elements. -/
theorem text?_array (s : Store) (a : ArrayId) :
    s.text? (.array a) = (s.elements a).toList.mapM s.text? >>= fun parts =>
      some ("[" ++ ", ".intercalate parts ++ "]") := by
  by_cases ha : s.Cyclic (.array a)
  · obtain ⟨_, b, ⟨⟩, hab, hb⟩ := ha.exists_nests
    rw [text?_eq_none_iff.2 ha]
    cases hparts : (s.elements a).toList.mapM s.text? with
    | none => rfl
    | some parts =>
      obtain ⟨t, ht⟩ := exists_mapM_iff.1 ⟨parts, hparts⟩ _ (Array.mem_toList_iff.2 hab)
      rw [text?_eq_none_iff.2 hb] at ht
      cases ht
  · have htexts := exists_textUpTo_array.1 (exists_text?_iff.2 ha)
    have hsame : (s.elements a).toList.mapM (s.textUpTo s.arrays.size) = (s.elements a).toList.mapM s.text? := by
      refine mapM_congr fun w hw => ?_
      obtain ⟨t, ht⟩ := htexts w (Array.mem_toList_iff.1 hw)
      rw [ht, text?, textUpTo_succ ht]
    rw [text?, textUpTo_array, hsame, Option.map_eq_bind]
    rfl

/-! ### Recursion without end -/

/-- Whoever spells out the first value comes to the second one: it is an element, and those before it have a text. -/
def Asks (s : Store) (v w : Value) : Prop :=
  ∃ a before after, v = .array a ∧ (s.elements a).toList = before ++ w :: after ∧
    ∀ x ∈ before, ∃ t, s.text? x = some t

private theorem Cyclic.exists_asks (h : s.Cyclic v) : ∃ w, s.Asks v w ∧ s.Cyclic w := by
  obtain ⟨a, b, rfl, hab, hb⟩ := h.exists_nests
  -- the first element without a text
  obtain ⟨w, hw⟩ : ∃ w, (s.elements a).toList.find? (fun x => (s.text? x).isNone) = some w := by
    rw [← Option.isSome_iff_exists, List.find?_isSome]
    exact ⟨_, Array.mem_toList_iff.2 hab, by rw [text?_eq_none_iff.2 hb]; rfl⟩
  obtain ⟨hnone, before, after, helements, hbefore⟩ := List.find?_eq_some_iff_append.1 hw
  have hcyclic : s.Cyclic w := text?_eq_none_iff.1 (Option.isNone_iff_eq_none.1 hnone)
  refine ⟨w, ⟨a, before, after, rfl, helements, fun x hx => ?_⟩, hcyclic⟩
  exact Option.isSome_iff_exists.1 (by simpa using hbefore x hx)

/-- Where the calls go on, no bound is enough. -/
private theorem textUpTo_eq_none_of_asks {calls : Nat → Value} (h : ∀ k, s.Asks (calls k) (calls (k + 1)))
    (n k : Nat) :
    s.textUpTo n (calls k) = none := by
  induction n generalizing k with
  | zero =>
    obtain ⟨a, _, _, hk, _⟩ := h k
    rw [hk]
    rfl
  | succ n ih =>
    obtain ⟨a, before, after, hk, helements, -⟩ := h k
    have hmem : calls (k + 1) ∈ s.elements a := by
      rw [← Array.mem_toList_iff, helements]
      exact List.mem_append_right _ List.mem_cons_self
    rw [hk]
    exact textUpTo_array_eq_none_iff.2 ⟨_, hmem, ih (k + 1)⟩

/-- Spelling out a value goes on without end exactly if there is an array in it that lies within itself. -/
theorem cyclic_iff_endless :
    s.Cyclic v ↔ ∃ calls : Nat → Value, calls 0 = v ∧ ∀ k, s.Asks (calls k) (calls (k + 1)) := by
  constructor
  · intro hv
    have hnot : ¬ Acc (fun w v => s.Asks v w) v := by
      intro hacc
      induction hacc with
      | intro v _ ih =>
        obtain ⟨w, hasks, hw⟩ := hv.exists_asks
        exact ih w hasks hw
    exact not_acc_iff_exists_descending_chain.1 hnot
  · rintro ⟨calls, rfl, hcalls⟩
    exact text?_eq_none_iff.1 (textUpTo_eq_none_of_asks hcalls _ 0)

end Store

end ObjScript
