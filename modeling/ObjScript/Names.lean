/-!
# Sets of names

A set of names is a list without repetitions; only membership counts, and names are shown in the order of
their code points.
-/

namespace ObjScript

/-- A set of names. -/
abbrev Names := List String

namespace Names

/-- The names with one more. -/
def add (names : Names) (name : String) : Names :=
  List.insert name names

/-- The names with those of a list. -/
def addAll (names : Names) (more : List String) : Names :=
  more.foldl add names

/-- The names in the order of their code points. -/
def sorted (names : Names) : List String :=
  names.mergeSort fun a b => a ≤ b

theorem mem_add {names : Names} {name a : String} : a ∈ names.add name ↔ a = name ∨ a ∈ names :=
  List.mem_insert_iff

theorem mem_addAll {names : Names} {more : List String} {a : String} :
    a ∈ names.addAll more ↔ a ∈ names ∨ a ∈ more := by
  induction more generalizing names with
  | nil => simp [addAll]
  | cons b more ih =>
    have h : names.addAll (b :: more) = (names.add b).addAll more := rfl
    rw [h, ih, mem_add, List.mem_cons]
    grind

end Names

end ObjScript
