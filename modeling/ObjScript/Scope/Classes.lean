import ObjScript.Bindings
import ObjScript.Names

/-!
# What the analysis knows about classes

For each class the names of its superclass, its properties and its methods, as far as the source has been
read.  Superclasses are known by name only, so that a class may come before its superclass, and the names
may even run in a circle.
-/

namespace ObjScript

/-- The members of a class, in the order of their declaration and with repetitions. -/
structure ClassInfo where
  superclass : Option String
  properties : List String
  methods : List String
deriving DecidableEq, Repr

/-- A class about which nothing is known. -/
def ClassInfo.empty : ClassInfo :=
  ⟨none, [], []⟩

/-- All classes in the order of their first mention. -/
abbrev ClassTable := Bindings ClassInfo

namespace ClassTable

/-- Changes what is known about a class. -/
def update (t : ClassTable) (name : String) (f : ClassInfo → ClassInfo) : ClassTable :=
  Bindings.put t name (f ((Bindings.get? t name).getD .empty))

/-- The classes of the table that are not in the list. -/
def beyond (t : ClassTable) (met : List String) : ClassTable :=
  t.filter fun p => p.1 ∉ met

/-- With one more class met, one less is left. -/
private theorem length_beyond_lt {t : ClassTable} {met : List String} {name : String} {info : ClassInfo}
    (hnew : name ∉ met)
    (h : Bindings.get? t name = some info) : (t.beyond (name :: met)).length < (t.beyond met).length := by
  have hsplit : t.beyond (name :: met) = (t.beyond met).filter fun p => p.1 ≠ name := by
    unfold beyond
    rw [List.filter_filter]
    congr 1
    funext p
    simp [List.mem_cons, not_or]
  have hmem : (name, info) ∈ t.beyond met :=
    List.mem_filter.2 ⟨Bindings.mem_of_get? h, by simpa using hnew⟩
  rw [hsplit]
  exact List.length_filter_lt_length_iff_exists.2 ⟨(name, info), hmem, by simp⟩

/-- A class and the classes above it.  The search ends at a class of which nothing is known, and at one that was met
before. -/
def lineFrom (t : ClassTable) (met : List String) (name : String) : List String :=
  if _ : name ∈ met then []
  else
    match _ : Bindings.get? t name with
    | none => []
    | some info =>
      name :: match info.superclass with
        | none => []
        | some above => lineFrom t (name :: met) above
termination_by (t.beyond met).length
decreasing_by exact length_beyond_lt ‹_› ‹_›

/-- The known ones of a class and the classes above it. -/
def line (t : ClassTable) (name : String) : List String :=
  t.lineFrom [] name

/-- The members that are noted for the class itself. -/
def own (t : ClassTable) (name : String) : List String :=
  match Bindings.get? t name with
  | none => []
  | some info => info.properties ++ info.methods

/-- The members of a class, inherited ones included. -/
def members (t : ClassTable) (name : String) : List String :=
  (t.line name).flatMap t.own

end ClassTable

end ObjScript
