import ObjScript.Proofs.Scope.Apart

/-!
# The places of a syntax tree

A place is a node of a tree together with the scopes that are open around it when it is run.  What a run is
allowed to meet is said of the places of its statements: the bodies of functions and block literals lie in
a scope of their own, and the methods of an implementation lie in one more, which bears the name of the
class.
-/

namespace ObjScript

/-- The scopes around a node, from the innermost outward: the name of the class for the scope of an
implementation, and nothing for any other scope. -/
abbrev Surroundings := List (Option String)

/-- How many scopes out the nearest implementation lies. -/
def Surroundings.home? (p : Surroundings) : Option Nat :=
  p.findIdx? (·.isSome)

/-- A node with the scopes around it. -/
structure Place where
  node : Node
  around : Surroundings

mutual

/-- An expression and all places below it. -/
def Expr.places (e : Expr) (p : Surroundings) : List Place :=
  ⟨.expr e, p⟩ :: match e with
    | .literal _ | .variable _ | .selfRef _ | .superRef _ => []
    | .grouping inner => inner.places p
    | .unary _ _ operand => operand.places p
    | .binary left _ _ right => left.places p ++ right.places p
    | .logical left _ right => left.places p ++ right.places p
    | .ternary condition yes no => condition.places p ++ (yes.places p ++ no.places p)
    | .assign _ _ _ value => value.places p
    | .array items => Expr.placesList items p
    | .index object place => object.places p ++ place.places p
    | .setIndex object place _ _ value => value.places p ++ (object.places p ++ place.places p)
    | .get object _ => object.places p
    | .set object _ _ _ value => value.places p ++ object.places p
    | .call callee args => callee.places p ++ Expr.placesList args p
    | .block _ _ body => Stmt.placesList body (none :: p)

/-- The places of each expression of a list. -/
def Expr.placesList : List Expr → Surroundings → List Place
  | [], _ => []
  | e :: rest, p => e.places p ++ Expr.placesList rest p

/-- The places of an expression that may be absent. -/
def Expr.placesOption : Option Expr → Surroundings → List Place
  | none, _ => []
  | some e, p => e.places p

/-- The places of the initial values. -/
def VarDecl.placesList : List VarDecl → Surroundings → List Place
  | [], _ => []
  | ⟨_, _, init⟩ :: rest, p => Expr.placesOption init p ++ VarDecl.placesList rest p

/-- The places of the bodies. -/
def FunctionDecl.placesList : List FunctionDecl → Surroundings → List Place
  | [], _ => []
  | ⟨_, _, body, _⟩ :: rest, p => Stmt.placesList body (none :: p) ++ FunctionDecl.placesList rest p

/-- A statement and all places below it.  The methods of an interface are never run. -/
def Stmt.places (t : Stmt) (p : Surroundings) : List Place :=
  ⟨.stmt t, p⟩ :: match t with
    | .block body => Stmt.placesList body (none :: p)
    | .branch condition yes no => condition.places p ++ (yes.places p ++ Stmt.placesOption no p)
    | .loop condition body => condition.places p ++ body.places p
    | .count init condition step body =>
      Stmt.placesOption init p ++ (Expr.placesOption condition p ++ (Expr.placesOption step p ++ body.places p))
    | .result value => Expr.placesOption value p
    | .expr e => e.places p
    | .var ⟨_, _, init⟩ => Expr.placesOption init p
    | .function ⟨_, _, body, _⟩ => Stmt.placesList body (none :: p)
    | .print value => value.places p
    | .classDef _ superclass _ properties =>
      superclass.toList.map (fun ref => ⟨.expr (.variable ref), p⟩) ++ VarDecl.placesList properties p
    | .classImpl name methods => FunctionDecl.placesList methods (some name.text :: p)
    | .typeDef _ _ => []

/-- The places of each statement of a list. -/
def Stmt.placesList : List Stmt → Surroundings → List Place
  | [], _ => []
  | t :: rest, p => t.places p ++ Stmt.placesList rest p

/-- The places of a statement that may be absent. -/
def Stmt.placesOption : Option Stmt → Surroundings → List Place
  | none, _ => []
  | some t, p => t.places p

end

/-- A node and all places below it. -/
def Node.places : Node → Surroundings → List Place
  | .expr e, p => e.places p
  | .stmt t, p => t.places p

/-- A node is the first of its places. -/
theorem Node.mem_places (n : Node) (p : Surroundings) : ⟨n, p⟩ ∈ n.places p := by
  cases n with
  | expr e =>
    unfold Node.places Expr.places
    exact List.mem_cons_self
  | stmt t =>
    unfold Node.places Stmt.places
    exact List.mem_cons_self

/-- The names that a node binds in frames. -/
def Node.binds : Node → List String
  | .expr (.assign target _ _ _) => [target.name.text]
  | .expr (.block _ params _) => paramNames params
  | .stmt (.var decl) => [decl.name.text]
  | .stmt (.function decl) => decl.name.text :: paramNames decl.params
  | .stmt (.classDef name _ _ _) => [name.text]
  | .stmt (.classImpl _ methods) => methods.flatMap fun d => paramNames d.params
  | _ => []

/-- The names of members that a node gives to instances and classes. -/
def Node.fields : Node → List String
  | .expr (.set _ name _ _ _) => [name.text]
  | .stmt (.classDef _ _ _ properties) => properties.map (·.name.text)
  | .stmt (.classImpl _ methods) => methods.map (·.name.text)
  | _ => []

section

variable {P : Place → Prop} {p : Surroundings}

/-- The body of each method of a list. -/
theorem FunctionDecl.forall_placesList {l : List FunctionDecl} :
    (∀ a ∈ FunctionDecl.placesList l p, P a) ↔ ∀ d ∈ l, ∀ a ∈ Stmt.placesList d.body (none :: p), P a := by
  induction l with
  | nil => simp [FunctionDecl.placesList]
  | cons d rest ih =>
    obtain ⟨_, _, body, _⟩ := d
    rw [FunctionDecl.placesList, List.forall_mem_append, ih, List.forall_mem_cons]

end

end ObjScript
