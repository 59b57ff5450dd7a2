/-!
# Ordered bindings

A finite map from names that remembers the order in which its names came.  Binding a name anew keeps its
place.
-/

namespace ObjScript

/-- Names with what they are bound to, in the order of their first binding. -/
abbrev Bindings (α : Type) := List (String × α)

namespace Bindings

variable {α : Type}

/-- What the name is bound to. -/
def get? : Bindings α → String → Option α
  | [], _ => none
  | (key, a) :: rest, name => if key = name then some a else get? rest name

/-- The name is bound. -/
def has (b : Bindings α) (name : String) : Bool :=
  (b.get? name).isSome

/-- Binds the name, in its old place or else at the end. -/
def put : Bindings α → String → α → Bindings α
  | [], name, a => [(name, a)]
  | (key, old) :: rest, name, a =>
    if key = name then (key, a) :: rest else (key, old) :: put rest name a

/-- Binds all names of the second map. -/
def putAll (b more : Bindings α) : Bindings α :=
  more.foldl (fun acc p => acc.put p.1 p.2) b

theorem mem_of_get? {b : Bindings α} {name : String} {a : α} (h : b.get? name = some a) : (name, a) ∈ b := by
  induction b with
  | nil => cases h
  | cons p rest ih =>
    obtain ⟨key, old⟩ := p
    unfold get? at h
    split at h
    · next hkey =>
      cases h
      exact hkey ▸ List.mem_cons_self
    · exact List.mem_cons_of_mem _ (ih h)

@[simp] theorem get?_put_self (b : Bindings α) (name : String) (a : α) :
    (b.put name a).get? name = some a := by
  induction b with
  | nil => simp [put, get?]
  | cons p rest ih =>
    obtain ⟨key, old⟩ := p
    unfold put
    split
    · simp_all [get?]
    · simp_all [get?]

theorem get?_put_of_ne (b : Bindings α) {name other : String} (h : other ≠ name) (a : α) :
    (b.put name a).get? other = b.get? other := by
  induction b with
  | nil => simp [put, get?, Ne.symm h]
  | cons p rest ih =>
    obtain ⟨key, old⟩ := p
    unfold put
    split
    · subst_vars; simp [get?, Ne.symm h]
    · simp [get?, ih]

end Bindings

end ObjScript
