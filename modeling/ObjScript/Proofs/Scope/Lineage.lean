import Mathlib.Data.List.Nodup
import Mathlib.Data.List.Perm.Subperm
import Mathlib.Logic.Relation
import ObjScript.Proofs.Bindings
import ObjScript.Scope.Classes

/-!
# The classes above a class

The search for the members of a class goes from superclass to superclass and ends at a class that it has met before.
What it has met by then is closed: a superclass of a class in the line is in the line too, if anything is known of it
(`mem_line_of_above`).  So nothing is lost by ending there, and the members of a class are those noted for a class
that can be reached from it (`mem_members_iff`).  No class is met twice (`nodup_line`).
-/

namespace ObjScript.ClassTable

variable {t : ClassTable} {met : List String} {name cls above x : String} {info : ClassInfo}

/-- The second class is noted as the superclass of the first one. -/
def Above (t : ClassTable) (cls above : String) : Prop :=
  ∃ info, Bindings.get? t cls = some info ∧ info.superclass = some above

theorem mem_own : x ∈ t.own cls ↔
    ∃ info, Bindings.get? t cls = some info ∧ (x ∈ info.properties ∨ x ∈ info.methods) := by
  unfold own
  cases Bindings.get? t cls with
  | none => simp
  | some info => simp

/-! ### The line of a class -/

private theorem mem_lineFrom : cls ∈ t.lineFrom met name ↔ name ∉ met ∧ ∃ info, Bindings.get? t name = some info ∧
    (cls = name ∨ ∃ above, info.superclass = some above ∧ cls ∈ t.lineFrom (name :: met) above) := by
  rw [lineFrom.eq_def]
  by_cases hmet : name ∈ met
  · simp [hmet]
  · rw [dif_neg hmet]
    split
    · next hnone => simp [hnone]
    · next info hinfo => cases hsuper : info.superclass <;> simp [hmet, hinfo, hsuper]

/-- The classes of the line are known, they can be reached, and they were not met before. -/
private theorem of_mem_lineFrom (h : cls ∈ t.lineFrom met name) :
    Bindings.has t cls = true ∧ Relation.ReflTransGen t.Above name cls ∧ cls ∉ met := by
  induction met, name using lineFrom.induct t with
  | case1 met name hmet => exact absurd hmet (mem_lineFrom.1 h).1
  | case2 met name _ hnone =>
    obtain ⟨-, info, hinfo, -⟩ := mem_lineFrom.1 h
    rw [hnone] at hinfo
    cases hinfo
  | case3 met name _ _ _ ih =>
    obtain ⟨hnew, info, hinfo, rfl | ⟨above, hsuper, hmem⟩⟩ := mem_lineFrom.1 h
    · exact ⟨by rw [Bindings.has, hinfo]; rfl, .refl, hnew⟩
    · obtain ⟨hknown, hreach, hmet⟩ := ih above hmem
      exact ⟨hknown, .head ⟨info, hinfo, hsuper⟩ hreach, fun hcls => hmet (List.mem_cons_of_mem _ hcls)⟩

/-- A class that is known begins its line. -/
private theorem self_mem_lineFrom (hnew : name ∉ met) (h : Bindings.has t name = true) :
    name ∈ t.lineFrom met name := by
  obtain ⟨info, hinfo⟩ := Option.isSome_iff_exists.1 h
  exact mem_lineFrom.2 ⟨hnew, info, hinfo, .inl rfl⟩

/-- The search misses a superclass of a class in the line only if it has met it before. -/
private theorem mem_lineFrom_of_above (h : cls ∈ t.lineFrom met name) (habove : t.Above cls above)
    (hknown : Bindings.has t above = true) : above ∈ t.lineFrom met name ∨ above ∈ met := by
  induction met, name using lineFrom.induct t with
  | case1 met name hmet => exact absurd hmet (mem_lineFrom.1 h).1
  | case2 met name _ hnone =>
    obtain ⟨-, info, hinfo, -⟩ := mem_lineFrom.1 h
    rw [hnone] at hinfo
    cases hinfo
  | case3 met name _ _ _ ih =>
    obtain ⟨hnew, info, hinfo, hcls⟩ := mem_lineFrom.1 h
    have hself : name ∈ t.lineFrom met name := mem_lineFrom.2 ⟨hnew, info, hinfo, .inl rfl⟩
    -- what the further search finds is found, and what it has met before is this class or was met before that
    have hfurther : ∀ next, info.superclass = some next →
        above ∈ t.lineFrom (name :: met) next ∨ above ∈ name :: met → above ∈ t.lineFrom met name ∨ above ∈ met := by
      rintro next hnext (hmem | hmem)
      · exact .inl (mem_lineFrom.2 ⟨hnew, info, hinfo, .inr ⟨next, hnext, hmem⟩⟩)
      · rcases List.mem_cons.1 hmem with rfl | hmet
        · exact .inl hself
        · exact .inr hmet
    rcases hcls with rfl | ⟨next, hnext, hmem⟩
    · obtain ⟨info', hinfo', hsuper⟩ := habove
      obtain rfl : info = info' := Option.some.inj (hinfo.symm.trans hinfo')
      refine hfurther above hsuper ?_
      by_cases hmet : above ∈ cls :: met
      · exact .inr hmet
      · exact .inl (self_mem_lineFrom hmet hknown)
    · exact hfurther next hnext (ih next hmem)

private theorem nodup_lineFrom (t : ClassTable) (met : List String) (name : String) :
    (t.lineFrom met name).Nodup := by
  fun_induction lineFrom t met name with
  | case1 => exact .nil
  | case2 => exact .nil
  | case3 met name hnew info hinfo ih =>
    cases hsuper : info.superclass with
    | none => exact List.nodup_singleton name
    | some above =>
      refine List.nodup_cons.2 ⟨fun hmem => ?_, ih above⟩
      exact (of_mem_lineFrom hmem).2.2 List.mem_cons_self

theorem nodup_line (t : ClassTable) (name : String) : (t.line name).Nodup :=
  nodup_lineFrom t [] name

/-- The line has no more classes than the table. -/
theorem length_line_le (t : ClassTable) (name : String) : (t.line name).length ≤ t.length := by
  have hsub : t.line name ⊆ Bindings.keys t := fun cls hcls => Bindings.mem_keys.2 (of_mem_lineFrom hcls).1
  calc (t.line name).length ≤ (Bindings.keys t).length := (List.subperm_of_subset (nodup_line t name) hsub).length_le
    _ = t.length := List.length_map _

/-- A superclass of a class in the line is in the line, if it is known. -/
private theorem mem_line_of_above (h : cls ∈ t.line name) (habove : t.Above cls above)
    (hknown : Bindings.has t above = true) : above ∈ t.line name :=
  (mem_lineFrom_of_above h habove hknown).resolve_right List.not_mem_nil

/-- The line of a class has the known classes that can be reached from it. -/
private theorem mem_line_iff :
    cls ∈ t.line name ↔ Relation.ReflTransGen t.Above name cls ∧ Bindings.has t cls = true := by
  refine ⟨fun h => ⟨(of_mem_lineFrom h).2.1, (of_mem_lineFrom h).1⟩, ?_⟩
  rintro ⟨hreach, hknown⟩
  induction hreach with
  | refl => exact self_mem_lineFrom List.not_mem_nil hknown
  | @tail cls above _ habove ih =>
    obtain ⟨info, hinfo, -⟩ := id habove
    have hcls : Bindings.has t cls = true := by rw [Bindings.has, hinfo]; rfl
    exact mem_line_of_above (ih hcls) habove hknown

/-- The members of a class are those that are noted for a class which can be reached from it. -/
theorem mem_members_iff : x ∈ t.members name ↔ ∃ cls, Relation.ReflTransGen t.Above name cls ∧ x ∈ t.own cls := by
  unfold members
  rw [List.mem_flatMap]
  refine exists_congr fun cls => ?_
  rw [mem_line_iff, and_assoc]
  refine and_congr_right fun _ => and_iff_right_of_imp fun hx => ?_
  obtain ⟨info, hinfo, -⟩ := mem_own.1 hx
  rw [Bindings.has, hinfo]
  rfl

/-- Two classes, each of which is noted as the superclass of the other one. -/
example : members [("A", ⟨some "B", ["x"], ["m"]⟩), ("B", ⟨some "A", ["y"], []⟩)] "B" = ["y", "x", "m"] := by
  decide +kernel

theorem mem_members_of_own (h : x ∈ t.own name) : x ∈ t.members name :=
  mem_members_iff.2 ⟨name, .refl, h⟩

theorem mem_members_of_above (h : t.Above name above) (hx : x ∈ t.members above) : x ∈ t.members name := by
  obtain ⟨cls, hreach, hown⟩ := mem_members_iff.1 hx
  exact mem_members_iff.2 ⟨cls, .head h hreach, hown⟩

end ObjScript.ClassTable
