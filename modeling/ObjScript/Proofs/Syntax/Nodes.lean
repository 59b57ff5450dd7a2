import ObjScript.Syntax

/-!
# The nodes of a syntax tree

A syntax tree as the list of its nodes, each with all that lies below it.  What is said of a program as a
whole ("no variable is mentioned in its own initial value") is said of every node of the list.

A tree as the parser builds it (`AsParsed`) leaves the depth of every reference open, and the body of a
branch or of a loop is never a declaration; it may be a loop whose start is one.
-/

namespace ObjScript

/-- A node of a syntax tree. -/
inductive Node where
  | expr (e : Expr)
  | stmt (s : Stmt)

mutual

/-- An expression and all nodes below it. -/
def Expr.nodes (e : Expr) : List Node :=
  .expr e :: match e with
    | .literal _ | .variable _ | .selfRef _ | .superRef _ => []
    | .grouping inner => inner.nodes
    | .unary _ _ operand => operand.nodes
    | .binary left _ _ right => left.nodes ++ right.nodes
    | .logical left _ right => left.nodes ++ right.nodes
    | .ternary condition yes no => condition.nodes ++ yes.nodes ++ no.nodes
    | .assign _ _ _ value => value.nodes
    | .array items => Expr.nodesList items
    | .index object place => object.nodes ++ place.nodes
    | .setIndex object place _ _ value => object.nodes ++ place.nodes ++ value.nodes
    | .get object _ => object.nodes
    | .set object _ _ _ value => object.nodes ++ value.nodes
    | .call callee args => callee.nodes ++ Expr.nodesList args
    | .block _ _ body => Stmt.nodesList body

/-- The nodes of each expression of a list. -/
def Expr.nodesList : List Expr → List Node
  | [] => []
  | e :: rest => e.nodes ++ Expr.nodesList rest

/-- The nodes of an expression that may be absent. -/
def Expr.nodesOption : Option Expr → List Node
  | none => []
  | some e => e.nodes

/-- The nodes of an initial value. -/
def VarDecl.nodes : VarDecl → List Node
  | ⟨_, _, init⟩ => Expr.nodesOption init

/-- The nodes of the initial values. -/
def VarDecl.nodesList : List VarDecl → List Node
  | [] => []
  | d :: rest => d.nodes ++ VarDecl.nodesList rest

/-- The nodes of a body. -/
def FunctionDecl.nodes : FunctionDecl → List Node
  | ⟨_, _, body, _⟩ => Stmt.nodesList body

/-- The nodes of the bodies. -/
def FunctionDecl.nodesList : List FunctionDecl → List Node
  | [] => []
  | d :: rest => d.nodes ++ FunctionDecl.nodesList rest

/-- A statement and all nodes below it. -/
def Stmt.nodes (s : Stmt) : List Node :=
  .stmt s :: match s with
    | .block body => Stmt.nodesList body
    | .branch condition yes no => condition.nodes ++ yes.nodes ++ Stmt.nodesOption no
    | .loop condition body => condition.nodes ++ body.nodes
    | .count init condition step body =>
      Stmt.nodesOption init ++ Expr.nodesOption condition ++ Expr.nodesOption step ++ body.nodes
    | .result value => Expr.nodesOption value
    | .expr e => e.nodes
    | .var decl => decl.nodes
    | .function decl => decl.nodes
    | .print value => value.nodes
    | .classDef _ superclass methods properties =>
      superclass.toList.map (fun ref => .expr (.variable ref)) ++
        (FunctionDecl.nodesList methods ++ VarDecl.nodesList properties)
    | .classImpl _ methods => FunctionDecl.nodesList methods
    | .typeDef _ _ => []

/-- The nodes of each statement of a list. -/
def Stmt.nodesList : List Stmt → List Node
  | [] => []
  | s :: rest => s.nodes ++ Stmt.nodesList rest

/-- The nodes of a statement that may be absent. -/
def Stmt.nodesOption : Option Stmt → List Node
  | none => []
  | some s => s.nodes

end

/-- The statement declares a variable or a function. -/
def Stmt.isDeclaration : Stmt → Bool
  | .var _ | .function _ => true
  | _ => false

/-- The node is an interface or an implementation. -/
def Node.isClass : Node → Bool
  | .stmt (.classDef _ _ _ _) | .stmt (.classImpl _ _) => true
  | _ => false

/-- What the parser leaves open at a node, and which statements it never puts there. -/
def Node.AsParsed : Node → Prop
  | .expr (.variable ref) | .expr (.selfRef ref) | .expr (.superRef ref) => ref.depth = none
  | .expr (.assign target _ _ _) => target.depth = none
  | .stmt (.branch _ yes no) => yes.isDeclaration = false ∧ ∀ s ∈ no, s.isDeclaration = false
  | .stmt (.loop _ body) => body.isDeclaration = false
  | .stmt (.count init _ _ body) =>
    (∀ s ∈ init, s.isDeclaration = true ∨ ∃ e, s = .expr e) ∧ body.isDeclaration = false
  | _ => True

/-- The expression is as the parser builds it. -/
def Expr.AsParsed (e : Expr) : Prop := ∀ n ∈ e.nodes, n.AsParsed

/-- The initial value is as the parser builds it. -/
def VarDecl.AsParsed (d : VarDecl) : Prop := ∀ n ∈ d.nodes, n.AsParsed

/-- The body is as the parser builds it. -/
def FunctionDecl.AsParsed (d : FunctionDecl) : Prop := ∀ n ∈ d.nodes, n.AsParsed

/-- The statement is as the parser builds it. -/
def Stmt.AsParsed (s : Stmt) : Prop := ∀ n ∈ s.nodes, n.AsParsed

private theorem Expr.mem_nodesList {n : Node} {l : List Expr} : n ∈ Expr.nodesList l ↔ ∃ e ∈ l, n ∈ e.nodes := by
  induction l with
  | nil => simp [Expr.nodesList]
  | cons e l ih => simp [Expr.nodesList, ih]

private theorem Expr.mem_nodesOption {n : Node} {o : Option Expr} :
    n ∈ Expr.nodesOption o ↔ ∃ e ∈ o, n ∈ e.nodes := by
  cases o <;> simp [Expr.nodesOption]

private theorem VarDecl.mem_nodesList {n : Node} {l : List VarDecl} :
    n ∈ VarDecl.nodesList l ↔ ∃ d ∈ l, n ∈ d.nodes := by
  induction l with
  | nil => simp [VarDecl.nodesList]
  | cons d l ih => simp [VarDecl.nodesList, ih]

private theorem FunctionDecl.mem_nodesList {n : Node} {l : List FunctionDecl} :
    n ∈ FunctionDecl.nodesList l ↔ ∃ d ∈ l, n ∈ d.nodes := by
  induction l with
  | nil => simp [FunctionDecl.nodesList]
  | cons d l ih => simp [FunctionDecl.nodesList, ih]

theorem Stmt.mem_nodesList {n : Node} {l : List Stmt} : n ∈ Stmt.nodesList l ↔ ∃ s ∈ l, n ∈ s.nodes := by
  induction l with
  | nil => simp [Stmt.nodesList]
  | cons s l ih => simp [Stmt.nodesList, ih]

private theorem Stmt.mem_nodesOption {n : Node} {o : Option Stmt} :
    n ∈ Stmt.nodesOption o ↔ ∃ s ∈ o, n ∈ s.nodes := by
  cases o <;> simp [Stmt.nodesOption]

/-! What holds of the nodes of each part holds of the nodes of all parts. -/

section Lists

variable {P : Node → Prop}

theorem Expr.forall_nodesList {l : List Expr} (h : ∀ e ∈ l, ∀ n ∈ e.nodes, P n) : ∀ n ∈ Expr.nodesList l, P n := by
  intro n hn
  obtain ⟨e, he, hn⟩ := Expr.mem_nodesList.1 hn
  exact h e he n hn

theorem Expr.forall_nodesOption {o : Option Expr} (h : ∀ e ∈ o, ∀ n ∈ e.nodes, P n) :
    ∀ n ∈ Expr.nodesOption o, P n := by
  intro n hn
  obtain ⟨e, he, hn⟩ := Expr.mem_nodesOption.1 hn
  exact h e he n hn

theorem VarDecl.forall_nodesList {l : List VarDecl} (h : ∀ d ∈ l, ∀ n ∈ d.nodes, P n) :
    ∀ n ∈ VarDecl.nodesList l, P n := by
  intro n hn
  obtain ⟨d, hd, hn⟩ := VarDecl.mem_nodesList.1 hn
  exact h d hd n hn

theorem FunctionDecl.forall_nodesList {l : List FunctionDecl} (h : ∀ d ∈ l, ∀ n ∈ d.nodes, P n) :
    ∀ n ∈ FunctionDecl.nodesList l, P n := by
  intro n hn
  obtain ⟨d, hd, hn⟩ := FunctionDecl.mem_nodesList.1 hn
  exact h d hd n hn

theorem Stmt.forall_nodesList {l : List Stmt} (h : ∀ s ∈ l, ∀ n ∈ s.nodes, P n) : ∀ n ∈ Stmt.nodesList l, P n := by
  intro n hn
  obtain ⟨s, hs, hn⟩ := Stmt.mem_nodesList.1 hn
  exact h s hs n hn

theorem Stmt.forall_nodesOption {o : Option Stmt} (h : ∀ s ∈ o, ∀ n ∈ s.nodes, P n) :
    ∀ n ∈ Stmt.nodesOption o, P n := by
  intro n hn
  obtain ⟨s, hs, hn⟩ := Stmt.mem_nodesOption.1 hn
  exact h s hs n hn

end Lists

/-- A node and all nodes below it. -/
def Node.below : Node → List Node
  | .expr e => e.nodes
  | .stmt t => t.nodes

theorem Node.mem_below (n : Node) : n ∈ n.below := by
  cases n with
  | expr e =>
    unfold Node.below Expr.nodes
    exact List.mem_cons_self
  | stmt t =>
    unfold Node.below Stmt.nodes
    exact List.mem_cons_self

/-- With each node the list has all nodes below it. -/
def Hereditary (nodes : List Node) : Prop :=
  ∀ n ∈ nodes, n.below ⊆ nodes

namespace Hereditary

variable {nodes more : List Node}

private theorem nil : Hereditary [] :=
  List.forall_mem_nil _

private theorem append (h : Hereditary nodes) (h' : Hereditary more) : Hereditary (nodes ++ more) := by
  refine List.forall_mem_append.2 ⟨fun n hn => ?_, fun n hn => ?_⟩
  · exact List.Subset.trans (h n hn) (List.subset_append_left _ _)
  · exact List.Subset.trans (h' n hn) (List.subset_append_right _ _)

/-- A node on top of all nodes below it. -/
private theorem cons {n : Node} (hn : n.below = n :: nodes) (h : Hereditary nodes) : Hereditary (n :: nodes) := by
  refine List.forall_mem_cons.2 ⟨fun m hm => hn ▸ hm, fun m hm => ?_⟩
  exact List.Subset.trans (h m hm) (List.subset_cons_self _ _)

/-- References without anything below them. -/
private theorem refs (refs : List Ref) : Hereditary (refs.map fun ref => .expr (.variable ref)) := by
  intro n hn m hm
  obtain ⟨ref, -, rfl⟩ := List.mem_map.1 hn
  rwa [List.mem_singleton.1 hm]

end Hereditary

mutual

theorem Expr.hereditary_nodes (e : Expr) : Hereditary e.nodes := by
  match e with
  | .literal _ | .variable _ | .selfRef _ | .superRef _ => exact .cons rfl .nil
  | .grouping inner => exact .cons rfl inner.hereditary_nodes
  | .unary _ _ operand => exact .cons rfl operand.hereditary_nodes
  | .binary left _ _ right => exact .cons rfl (left.hereditary_nodes.append right.hereditary_nodes)
  | .logical left _ right => exact .cons rfl (left.hereditary_nodes.append right.hereditary_nodes)
  | .ternary condition yes no =>
    exact .cons rfl ((condition.hereditary_nodes.append yes.hereditary_nodes).append no.hereditary_nodes)
  | .assign _ _ _ value => exact .cons rfl value.hereditary_nodes
  | .array items => exact .cons rfl (Expr.hereditary_nodesList items)
  | .index object place => exact .cons rfl (object.hereditary_nodes.append place.hereditary_nodes)
  | .setIndex object place _ _ value =>
    exact .cons rfl ((object.hereditary_nodes.append place.hereditary_nodes).append value.hereditary_nodes)
  | .get object _ => exact .cons rfl object.hereditary_nodes
  | .set object _ _ _ value => exact .cons rfl (object.hereditary_nodes.append value.hereditary_nodes)
  | .call callee args => exact .cons rfl (callee.hereditary_nodes.append (Expr.hereditary_nodesList args))
  | .block _ _ body => exact .cons rfl (Stmt.hereditary_nodesList body)

theorem Expr.hereditary_nodesList (l : List Expr) : Hereditary (Expr.nodesList l) := by
  match l with
  | [] => exact .nil
  | e :: rest => exact e.hereditary_nodes.append (Expr.hereditary_nodesList rest)

theorem Expr.hereditary_nodesOption (o : Option Expr) : Hereditary (Expr.nodesOption o) := by
  match o with
  | none => exact .nil
  | some e => exact e.hereditary_nodes

theorem VarDecl.hereditary_nodesList (l : List VarDecl) : Hereditary (VarDecl.nodesList l) := by
  match l with
  | [] => exact .nil
  | ⟨_, _, init⟩ :: rest => exact (Expr.hereditary_nodesOption init).append (VarDecl.hereditary_nodesList rest)

theorem FunctionDecl.hereditary_nodesList (l : List FunctionDecl) : Hereditary (FunctionDecl.nodesList l) := by
  match l with
  | [] => exact .nil
  | ⟨_, _, body, _⟩ :: rest => exact (Stmt.hereditary_nodesList body).append (FunctionDecl.hereditary_nodesList rest)

theorem Stmt.hereditary_nodes (t : Stmt) : Hereditary t.nodes := by
  match t with
  | .block body => exact .cons rfl (Stmt.hereditary_nodesList body)
  | .branch condition yes no =>
    exact .cons rfl ((condition.hereditary_nodes.append yes.hereditary_nodes).append (Stmt.hereditary_nodesOption no))
  | .loop condition body => exact .cons rfl (condition.hereditary_nodes.append body.hereditary_nodes)
  | .count init condition step body =>
    exact .cons rfl ((((Stmt.hereditary_nodesOption init).append (Expr.hereditary_nodesOption condition)).append
      (Expr.hereditary_nodesOption step)).append body.hereditary_nodes)
  | .result value => exact .cons rfl (Expr.hereditary_nodesOption value)
  | .expr e => exact .cons rfl e.hereditary_nodes
  | .var ⟨_, _, init⟩ => exact .cons rfl (Expr.hereditary_nodesOption init)
  | .function ⟨_, _, body, _⟩ => exact .cons rfl (Stmt.hereditary_nodesList body)
  | .print value => exact .cons rfl value.hereditary_nodes
  | .classDef _ superclass methods properties =>
    exact .cons rfl ((Hereditary.refs superclass.toList).append
      ((FunctionDecl.hereditary_nodesList methods).append (VarDecl.hereditary_nodesList properties)))
  | .classImpl _ methods => exact .cons rfl (FunctionDecl.hereditary_nodesList methods)
  | .typeDef _ _ => exact .cons rfl .nil

theorem Stmt.hereditary_nodesList (l : List Stmt) : Hereditary (Stmt.nodesList l) := by
  match l with
  | [] => exact .nil
  | t :: rest => exact t.hereditary_nodes.append (Stmt.hereditary_nodesList rest)

theorem Stmt.hereditary_nodesOption (o : Option Stmt) : Hereditary (Stmt.nodesOption o) := by
  match o with
  | none => exact .nil
  | some t => exact t.hereditary_nodes

end

/-- The name that a node refers to. -/
def Node.name? : Node → Option String
  | .expr (.variable ref) | .expr (.selfRef ref) | .expr (.superRef ref) => some ref.name.text
  | .expr (.assign target _ _ _) => some target.name.text
  | _ => none

/-- One of the nodes refers to the name. -/
def Mentioned (nodes : List Node) (x : String) : Prop :=
  ∃ n ∈ nodes, n.name? = some x

theorem Mentioned.mono {nodes more : List Node} {x : String} (h : Mentioned nodes x) (hsub : nodes ⊆ more) :
    Mentioned more x := by
  obtain ⟨n, hn, hx⟩ := h
  exact ⟨n, hsub hn, hx⟩

end ObjScript
