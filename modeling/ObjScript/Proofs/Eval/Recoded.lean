import ObjScript.Eval.Interpreter
import ObjScript.Proofs.Store.Recoded

/-!
# Values with other code, as the evaluators see them

Operators, elements of arrays, default values and the binding of parameters do not look at the trees that values
carry.
-/

namespace ObjScript.Run

variable {r : Recoding} {v : Value}

@[simp] theorem addend_recoded : addend (v.recoded r) = (addend v).recoded r := by
  cases v <;> rfl

@[simp] theorem place?_recoded {size : Nat} : place? (v.recoded r) size = place? v size := by
  cases v <;> rfl

theorem elementOf_recoded (s : Store) (a : ArrayId) :
    elementOf (s.recoded r) a (v.recoded r) = (elementOf s a v).recoded r := by
  simp only [elementOf, place?_recoded, Store.elements_recoded, Array.size_map]
  cases place? v (s.elements a).size with
  | none => rfl
  | some i => exact getD_map (Value.recoded r) (s.elements a) i rfl

theorem builtinMember_recoded (x : String) : builtinMember (v.recoded r) x = (builtinMember v x).recoded r := by
  have hv : builtinMember (v.recoded r) x = builtinMember v x := by
    cases v <;> rfl
  rw [hv]
  unfold builtinMember
  split <;> rfl

theorem defaultValue_recoded (type : TypeExpr) : (defaultValue type).recoded r = defaultValue type := by
  unfold defaultValue
  split <;> rfl

/-- Parameters are bound by their names. -/
theorem bindParams_recoded {params params' : List Param}
    (h : params'.map (·.name.text) = params.map (·.name.text)) (args : List Value) (b : Bindings Value) :
    bindParams params' (args.map (Value.recoded r)) (b.mapAll (Value.recoded r)) =
      (bindParams params args b).mapAll (Value.recoded r) := by
  induction params generalizing params' args b with
  | nil =>
    rw [List.map_eq_nil_iff.1 h]
    rfl
  | cons p rest ih =>
    cases params' with
    | nil => cases h
    | cons p' rest' =>
      obtain ⟨hhead, hrest⟩ := List.cons.inj h
      have hname : p'.name.text = p.name.text := hhead
      have hput : ∀ v : Value, (b.mapAll (Value.recoded r)).put p'.name.text (v.recoded r) =
          (b.put p.name.text v).mapAll (Value.recoded r) := by
        intro v
        rw [hname, Bindings.put_mapAll]
      cases args with
      | nil => exact (congrArg (bindParams rest' []) (hput .null)).trans (ih hrest [] _)
      | cons v args => exact (congrArg (bindParams rest' _) (hput v)).trans (ih hrest args _)

end ObjScript.Run
