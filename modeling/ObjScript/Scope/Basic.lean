import ObjScript.Scope.Classes
import ObjScript.Syntax

/-!
# Scopes

The analysis of scopes walks through a program with a stack of scopes that matches the frames of a run:
one for the top level, one for each block, function body and block literal, and one for each
implementation, which stands for the frame that holds `self` and the members of the class.
-/

namespace ObjScript

/-- The kinds of references. -/
inductive RefKind where
  | variable | assign | selfRef | superRef
deriving DecidableEq, Repr

/-- A reference whose declaration was found, and how many scopes outward. -/
structure Report where
  kind : RefKind
  name : Name
  depth : Nat
deriving DecidableEq, Repr

/-- What the analysis knows: the names of each scope from the innermost to the top level, the classes, and
the references found so far. -/
structure Scopes where
  stack : List Names
  classes : ClassTable
  reports : Array Report

/-- Before a program: the top level is empty. -/
def Scopes.initial : Scopes :=
  ⟨[[]], [], #[]⟩

/-- A step of the analysis. -/
abbrev Resolve := StateM Scopes

namespace Resolve

/-- Declares a name in the innermost scope. -/
def declare (name : String) : Resolve Unit :=
  modify fun s =>
    match s.stack with
    | [] => s
    | scope :: outer => { s with stack := scope.add name :: outer }

/-- Runs a step in a scope of its own. -/
def inScope {α : Type} (step : Resolve α) : Resolve α := do
  modify fun s => { s with stack := [] :: s.stack }
  let a ← step
  modify fun s => { s with stack := s.stack.tail }
  return a

/-- The number of scopes outward to the nearest one that declares the name. -/
def depth? (stack : List Names) (name : String) : Option Nat :=
  stack.findIdx? (·.contains name)

/-- Finds the scope of a reference.  One that no scope declares stays open. -/
def reference (kind : RefKind) (ref : Ref) : Resolve Ref := do
  let s ← get
  match depth? s.stack ref.name.text with
  | none => return ref
  | some depth =>
    set { s with reports := s.reports.push ⟨kind, ref.name, depth⟩ }
    return { ref with depth := some depth }

/-- Changes what is known about a class. -/
def updateClass (name : String) (f : ClassInfo → ClassInfo) : Resolve Unit :=
  modify fun s => { s with classes := s.classes.update name f }

end Resolve

end ObjScript
