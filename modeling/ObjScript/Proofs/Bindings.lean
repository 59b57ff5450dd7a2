import ObjScript.Bindings

/-!
# The names of ordered bindings

Which names are bound, and in which order they came.
-/

namespace ObjScript.Bindings

variable {α : Type} {b : Bindings α} {x : String}

theorem has_put (b : Bindings α) (x y : String) (a : α) : (b.put x a).has y = true ↔ y = x ∨ b.has y = true := by
  by_cases hxy : y = x
  · subst hxy
    simp [has]
  · simp [has, get?_put_of_ne b hxy, hxy]

/-- The last binding of a name counts. -/
theorem put_put (b : Bindings α) (x : String) (a a' : α) : (b.put x a).put x a' = b.put x a' := by
  induction b with
  | nil => simp [put]
  | cons p rest ih =>
    obtain ⟨key, old⟩ := p
    by_cases h : key = x
    · simp [put, h]
    · simp [put, h, ih]

/-- The names that are bound. -/
def keys (b : Bindings α) : List String :=
  b.map (·.1)

theorem mem_keys : x ∈ b.keys ↔ b.has x = true := by
  induction b with
  | nil => simp [keys, has, get?]
  | cons p rest ih =>
    obtain ⟨key, a⟩ := p
    by_cases h : key = x
    · simp [keys, has, get?, h]
    · have hne : x ≠ key := fun hx => h hx.symm
      simpa [keys, has, get?, h, hne] using ih

/-- A name that is bound anew keeps its place. -/
theorem keys_put_of_mem (h : x ∈ b.keys) (a : α) : (b.put x a).keys = b.keys := by
  induction b with
  | nil => cases h
  | cons p rest ih =>
    obtain ⟨key, old⟩ := p
    by_cases hkey : key = x
    · simp [keys, put, hkey]
    · have hrest : x ∈ keys rest := (List.mem_cons.1 h).resolve_left fun hx => hkey hx.symm
      have hput := ih hrest
      unfold keys at hput ⊢
      simp [put, hkey, hput]

/-- A new name comes last. -/
theorem keys_put_of_not_mem (h : x ∉ b.keys) (a : α) : (b.put x a).keys = b.keys ++ [x] := by
  induction b with
  | nil => rfl
  | cons p rest ih =>
    obtain ⟨key, old⟩ := p
    obtain ⟨hkey, hrest⟩ := not_or.1 fun hx => h (List.mem_cons.2 hx)
    have hput := ih hrest
    unfold keys at hput ⊢
    simp [put, Ne.symm hkey, hput]

theorem has_putAll (b more : Bindings α) (x : String) :
    (b.putAll more).has x = true ↔ more.has x = true ∨ b.has x = true := by
  rw [← mem_keys (b := more)]
  induction more generalizing b with
  | nil => simp [putAll, keys]
  | cons p rest ih =>
    have hkeys : keys (p :: rest) = p.1 :: keys rest := rfl
    change ((b.put p.1 p.2).putAll rest).has x = true ↔ _
    rw [ih, has_put, hkeys, List.mem_cons, or_left_comm, or_assoc]

end ObjScript.Bindings
