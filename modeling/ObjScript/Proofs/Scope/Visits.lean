import ObjScript.Proofs.Syntax.Nodes
import ObjScript.Scope.Resolve

/-!
# What the analysis of scopes comes by

The references and statements of a tree in the order in which the analysis comes to them, each with the
stack of scopes at that moment and with what opened these scopes (`Expr.visits`, `Stmt.visits`).

An expression leaves the stack as it was, and a statement adds the names that it declares to the innermost
scope (`Stmt.stack_next`).
-/

namespace ObjScript

namespace Resolve

/-- What a step of the analysis gives. -/
def value {α : Type} (step : Resolve α) (s : Scopes) : α :=
  (step.run s).1

/-- What is known after a step of the analysis. -/
def next {α : Type} (step : Resolve α) (s : Scopes) : Scopes :=
  (step.run s).2

/-- A reference that is found is reported, another one stays as it is. -/
theorem run_reference (kind : RefKind) (ref : Ref) (s : Scopes) :
    (reference kind ref).run s = match depth? s.stack ref.name.text with
      | none => (ref, s)
      | some depth =>
        ({ ref with depth := some depth }, { s with reports := s.reports.push ⟨kind, ref.name, depth⟩ }) := by
  unfold reference
  rw [StateT.run_bind, StateT.run_get, pure_bind]
  cases depth? s.stack ref.name.text <;> rfl

end Resolve

namespace Scopes

/-- Another scope is opened. -/
def push (s : Scopes) : Scopes :=
  { s with stack := [] :: s.stack }

/-- A scope with the parameters is opened. -/
def enter (s : Scopes) (params : List Param) : Scopes :=
  (declareParams params).next s.push

/-- The methods of a class are known. -/
def implemented (s : Scopes) (name : Name) (methods : List FunctionDecl) : Scopes :=
  (Resolve.updateClass name.text fun info =>
    { info with methods := info.methods ++ methods.map (·.name.text) }).next s

/-- A scope with the members of a class is opened. -/
def enterMembers (s : Scopes) (name : Name) (methods : List FunctionDecl) : Scopes :=
  (declareAll ("self" :: "super" :: (s.implemented name methods).classes.members name.text)).next
    (s.implemented name methods).push

end Scopes

/-- A node that the analysis came to, as it was before and as it is then, with what was known at that moment and
with what had opened each scope of the stack. -/
structure Visit where
  node : Node
  seen : Node
  scopes : Scopes
  path : List Opener

/-- Finds the superclass of a class and notes it. -/
def resolveSuperclass (name : Name) (superclass : Option Ref) : Resolve (Option Ref) := do
  let superclass ← match superclass with
    | none => pure none
    | some ref => some <$> Resolve.reference .variable ref
  Resolve.updateClass name.text fun info =>
    { info with superclass := (superclass.map (·.name.text)).or info.superclass }
  return superclass

mutual

/-- The references of an expression. -/
def Expr.visits (e : Expr) (s : Scopes) (p : List Opener) : List Visit :=
  match e with
  | .literal _ => []
  | .variable _ | .selfRef _ | .superRef _ => [⟨.expr e, .expr (e.resolve.value s), s, p⟩]
  | .grouping inner => inner.visits s p
  | .unary _ _ operand => operand.visits s p
  | .binary left _ _ right => left.visits s p ++ right.visits (left.resolve.next s) p
  | .logical left _ right => left.visits s p ++ right.visits (left.resolve.next s) p
  | .ternary condition yes no =>
    condition.visits s p ++ yes.visits (condition.resolve.next s) p ++
      no.visits (yes.resolve.next (condition.resolve.next s)) p
  | .assign _ _ _ value =>
    value.visits s p ++ [⟨.expr e, .expr (e.resolve.value s), value.resolve.next s, p⟩]
  | .array items => Expr.visitsList items s p
  | .index object place => object.visits s p ++ place.visits (object.resolve.next s) p
  | .setIndex object place _ _ value =>
    value.visits s p ++ object.visits (value.resolve.next s) p ++
      place.visits (object.resolve.next (value.resolve.next s)) p
  | .get object _ => object.visits s p
  | .set object _ _ _ value => value.visits s p ++ object.visits (value.resolve.next s) p
  | .call callee args => callee.visits s p ++ Expr.visitsList args (callee.resolve.next s) p
  | .block _ params body =>
    Stmt.visitsList body (s.enter params)
      (.body params ((Stmt.resolveList body).value (s.enter params)) :: p)

/-- The references of each expression of a list. -/
def Expr.visitsList : List Expr → Scopes → List Opener → List Visit
  | [], _, _ => []
  | e :: rest, s, p => e.visits s p ++ Expr.visitsList rest (e.resolve.next s) p

/-- The references of an expression that may be absent. -/
def Expr.visitsOption : Option Expr → Scopes → List Opener → List Visit
  | none, _, _ => []
  | some e, s, p => e.visits s p

/-- The references of the initial values of the properties of a class. -/
def VarDecl.visitsProperties (className : String) : List VarDecl → Scopes → List Opener → List Visit
  | [], _, _ => []
  | ⟨_, name, init⟩ :: rest, s, p =>
    let s := (Resolve.updateClass className fun info =>
      { info with properties := info.properties ++ [name.text] }).next s
    Expr.visitsOption init s p ++
      VarDecl.visitsProperties className rest ((Expr.resolveOption init).next s) p

/-- The nodes of a method. -/
def FunctionDecl.visits : FunctionDecl → Scopes → List Opener → List Visit
  | ⟨name, params, body, isStatic⟩, s, p =>
    let body' := (Stmt.resolveList body).value (s.enter params)
    Stmt.visitsList body (s.enter params) (.body params body' :: .members ⟨name, params, body', isStatic⟩ :: p)

/-- The nodes of each method of a list. -/
def FunctionDecl.visitsList : List FunctionDecl → Scopes → List Opener → List Visit
  | [], _, _ => []
  | d :: rest, s, p => d.visits s p ++ FunctionDecl.visitsList rest (d.resolve.next s) p

/-- A statement with the references and statements below it. -/
def Stmt.visits (t : Stmt) (s : Scopes) (p : List Opener) : List Visit :=
  ⟨.stmt t, .stmt (t.resolve.value s), s, p⟩ :: match t with
    | .block body => Stmt.visitsList body s.push (.block ((Stmt.resolveList body).value s.push) :: p)
    | .branch condition yes no =>
      condition.visits s p ++ yes.visits (condition.resolve.next s) p ++
        Stmt.visitsOption no (yes.resolve.next (condition.resolve.next s)) p
    | .loop condition body => condition.visits s p ++ body.visits (condition.resolve.next s) p
    | .count init condition step body =>
      let s₁ := (Stmt.resolveOption init).next s
      let s₂ := (Expr.resolveOption condition).next s₁
      let s₃ := (Expr.resolveOption step).next s₂
      Stmt.visitsOption init s p ++ Expr.visitsOption condition s₁ p ++ Expr.visitsOption step s₂ p ++
        body.visits s₃ p
    | .result value => Expr.visitsOption value s p
    | .expr e => e.visits s p
    | .var ⟨_, name, init⟩ => Expr.visitsOption init ((Resolve.declare name.text).next s) p
    | .function ⟨name, params, body, _⟩ =>
      let s := ((Resolve.declare name.text).next s).enter params
      Stmt.visitsList body s (.body params ((Stmt.resolveList body).value s) :: p)
    | .print value => value.visits s p
    | .classDef name superclass _ properties =>
      let s := (Resolve.declare name.text).next s
      let references := superclass.toList.map fun ref =>
        ⟨.expr (.variable ref), .expr ((Expr.variable ref).resolve.value s), s, p⟩
      references ++ VarDecl.visitsProperties name.text properties ((resolveSuperclass name superclass).next s) p
    | .classImpl name methods => FunctionDecl.visitsList methods (s.enterMembers name methods) p
    | .typeDef _ _ => []

/-- The nodes of each statement of a list. -/
def Stmt.visitsList : List Stmt → Scopes → List Opener → List Visit
  | [], _, _ => []
  | t :: rest, s, p => t.visits s p ++ Stmt.visitsList rest (t.resolve.next s) p

/-- The nodes of a statement that may be absent. -/
def Stmt.visitsOption : Option Stmt → Scopes → List Opener → List Visit
  | none, _, _ => []
  | some t, s, p => t.visits s p

end

/-- The analysis comes to a statement before its parts. -/
theorem Stmt.mem_visits (t : Stmt) (s : Scopes) (p : List Opener) :
    ⟨.stmt t, .stmt (t.resolve.value s), s, p⟩ ∈ t.visits s p := by
  rw [Stmt.visits.eq_def]
  exact List.mem_cons_self

mutual

/-- The names that a statement declares in the scope that it stands in. -/
def Stmt.declared : Stmt → List String
  | .branch _ yes no => yes.declared ++ Stmt.declaredOption no
  | .loop _ body => body.declared
  | .count init _ _ body => Stmt.declaredOption init ++ body.declared
  | .var decl => [decl.name.text]
  | .function decl => [decl.name.text]
  | .classDef name _ _ _ => [name.text]
  | _ => []

/-- The names that a statement declares, if there is one. -/
def Stmt.declaredOption : Option Stmt → List String
  | none => []
  | some t => t.declared

end

/-- The names that a list of statements declares. -/
def Stmt.declaredList (l : List Stmt) : List String :=
  l.flatMap Stmt.declared

/-- The stack with more names in the innermost scope. -/
def declareTop (names : List String) : List Names → List Names
  | [] => []
  | scope :: outer => scope.addAll names :: outer

@[simp] theorem declareTop_nil (stack : List Names) : declareTop [] stack = stack := by
  cases stack <;> rfl

private theorem declareTop_append (names more : List String) (stack : List Names) :
    declareTop (names ++ more) stack = declareTop more (declareTop names stack) := by
  cases stack with
  | nil => rfl
  | cons scope outer => simp [declareTop, Names.addAll]

@[simp] theorem tail_declareTop (names : List String) (stack : List Names) :
    (declareTop names stack).tail = stack.tail := by
  cases stack <;> rfl

@[simp] theorem length_declareTop (names : List String) (stack : List Names) :
    (declareTop names stack).length = stack.length := by
  cases stack <;> rfl

theorem stack_declare (name : String) (s : Scopes) :
    ((Resolve.declare name).next s).stack = declareTop [name] s.stack := by
  obtain ⟨stack, classes, reports⟩ := s
  cases stack <;> rfl

private theorem stack_reference (kind : RefKind) (ref : Ref) (s : Scopes) :
    ((Resolve.reference kind ref).next s).stack = s.stack := by
  unfold Resolve.next
  rw [Resolve.run_reference]
  cases Resolve.depth? s.stack ref.name.text <;> rfl

/-- A reference as the parser builds it gets the number of scopes to its declaration. -/
theorem value_reference (kind : RefKind) (ref : Ref) (s : Scopes) (h : ref.depth = none) :
    (Resolve.reference kind ref).value s = ⟨ref.name, Resolve.depth? s.stack ref.name.text⟩ := by
  obtain ⟨name, depth⟩ := ref
  obtain rfl : depth = none := h
  unfold Resolve.value
  rw [Resolve.run_reference]
  cases Resolve.depth? s.stack name.text <;> rfl

private theorem stack_declareParams (params : List Param) (s : Scopes) :
    ((declareParams params).next s).stack = declareTop (params.map (·.name.text)) s.stack := by
  induction params generalizing s with
  | nil => exact (declareTop_nil _).symm
  | cons q params ih =>
    refine (ih ((Resolve.declare q.name.text).next s)).trans ?_
    rw [stack_declare, ← declareTop_append]
    rfl

theorem stack_declareAll (names : List String) (s : Scopes) :
    ((declareAll names).next s).stack = declareTop names s.stack := by
  induction names generalizing s with
  | nil => exact (declareTop_nil _).symm
  | cons name names ih =>
    refine (ih ((Resolve.declare name).next s)).trans ?_
    rw [stack_declare, ← declareTop_append]
    rfl

theorem stack_enter (s : Scopes) (params : List Param) :
    (s.enter params).stack = Names.addAll [] (params.map (·.name.text)) :: s.stack :=
  stack_declareParams params s.push

/-- The analysis of an interface, with the superclass in one step. -/
theorem Stmt.resolve_classDef (name : Name) (superclass : Option Ref) (methods : List FunctionDecl)
    (properties : List VarDecl) :
    (Stmt.classDef name superclass methods properties).resolve = (do
      Resolve.declare name.text
      let superclass ← resolveSuperclass name superclass
      let properties ← VarDecl.resolveProperties name.text properties
      Resolve.updateClass name.text fun info =>
        { info with methods := info.methods ++ methods.map (·.name.text) }
      return .classDef name superclass methods properties) := by
  cases superclass <;> rfl

theorem stack_resolveSuperclass (name : Name) (superclass : Option Ref) (s : Scopes) :
    ((resolveSuperclass name superclass).next s).stack = s.stack := by
  cases superclass with
  | none => rfl
  | some ref => exact stack_reference .variable ref s

mutual

/-- An expression leaves the stack as it was. -/
theorem Expr.stack_next (e : Expr) (s : Scopes) : (e.resolve.next s).stack = s.stack := by
  match e with
  | .literal _ => rfl
  | .variable ref | .selfRef ref | .superRef ref => exact stack_reference _ ref s
  | .grouping inner => exact inner.stack_next s
  | .unary _ _ operand => exact operand.stack_next s
  | .binary left _ _ right => exact (right.stack_next _).trans (left.stack_next s)
  | .logical left _ right => exact (right.stack_next _).trans (left.stack_next s)
  | .ternary condition yes no =>
    exact (no.stack_next _).trans ((yes.stack_next _).trans (condition.stack_next s))
  | .assign target _ _ value => exact (stack_reference .assign target _).trans (value.stack_next s)
  | .array items => exact Expr.stack_nextList items s
  | .index object place => exact (place.stack_next _).trans (object.stack_next s)
  | .setIndex object place _ _ value =>
    exact (place.stack_next _).trans ((object.stack_next _).trans (value.stack_next s))
  | .get object _ => exact object.stack_next s
  | .set object _ _ _ value => exact (object.stack_next _).trans (value.stack_next s)
  | .call callee args => exact (Expr.stack_nextList args _).trans (callee.stack_next s)
  | .block _ params body =>
    have h := Stmt.stack_nextList body (s.enter params)
    rw [stack_enter] at h
    exact congrArg List.tail h

theorem Expr.stack_nextList (l : List Expr) (s : Scopes) : ((Expr.resolveList l).next s).stack = s.stack := by
  match l with
  | [] => rfl
  | e :: rest => exact (Expr.stack_nextList rest _).trans (e.stack_next s)

theorem Expr.stack_nextOption (o : Option Expr) (s : Scopes) :
    ((Expr.resolveOption o).next s).stack = s.stack := by
  match o with
  | none => rfl
  | some e => exact e.stack_next s

theorem VarDecl.stack_nextProperties (className : String) (l : List VarDecl) (s : Scopes) :
    ((VarDecl.resolveProperties className l).next s).stack = s.stack := by
  match l with
  | [] => rfl
  | ⟨_, _, init⟩ :: rest =>
    exact (VarDecl.stack_nextProperties className rest _).trans (Expr.stack_nextOption init _)

theorem FunctionDecl.stack_next (d : FunctionDecl) (s : Scopes) : (d.resolve.next s).stack = s.stack := by
  match d with
  | ⟨_, params, body, _⟩ =>
    have h := Stmt.stack_nextList body (s.enter params)
    rw [stack_enter] at h
    exact congrArg List.tail h

theorem FunctionDecl.stack_nextList (l : List FunctionDecl) (s : Scopes) :
    ((FunctionDecl.resolveList l).next s).stack = s.stack := by
  match l with
  | [] => rfl
  | d :: rest => exact (FunctionDecl.stack_nextList rest _).trans (d.stack_next s)

/-- A statement adds the names that it declares to the innermost scope. -/
theorem Stmt.stack_next (t : Stmt) (s : Scopes) :
    (t.resolve.next s).stack = declareTop t.declared s.stack := by
  match t with
  | .block body =>
    have h := congrArg List.tail (Stmt.stack_nextList body s.push)
    rw [tail_declareTop] at h
    exact h.trans (declareTop_nil _).symm
  | .branch condition yes no =>
    refine (Stmt.stack_nextOption no (yes.resolve.next (condition.resolve.next s))).trans ?_
    rw [yes.stack_next, condition.stack_next]
    exact (declareTop_append _ _ _).symm
  | .loop condition body =>
    refine (body.stack_next (condition.resolve.next s)).trans ?_
    rw [condition.stack_next]
    rfl
  | .count init condition step body =>
    let s₁ := (Stmt.resolveOption init).next s
    let s₂ := (Expr.resolveOption condition).next s₁
    refine (body.stack_next ((Expr.resolveOption step).next s₂)).trans ?_
    rw [Expr.stack_nextOption step s₂, Expr.stack_nextOption condition s₁, Stmt.stack_nextOption init s]
    exact (declareTop_append _ _ _).symm
  | .result value => exact (Expr.stack_nextOption value s).trans (declareTop_nil _).symm
  | .expr e => exact (e.stack_next s).trans (declareTop_nil _).symm
  | .var ⟨_, name, init⟩ => exact (Expr.stack_nextOption init _).trans (stack_declare name.text s)
  | .function d => exact (d.stack_next _).trans (stack_declare d.name.text s)
  | .print value => exact (value.stack_next s).trans (declareTop_nil _).symm
  | .classDef name superclass _ properties =>
    rw [Stmt.resolve_classDef]
    let s₁ := (Resolve.declare name.text).next s
    refine (VarDecl.stack_nextProperties name.text properties ((resolveSuperclass name superclass).next s₁)).trans ?_
    exact (stack_resolveSuperclass name superclass s₁).trans (stack_declare name.text s)
  | .classImpl name methods =>
    have h := FunctionDecl.stack_nextList methods (s.enterMembers name methods)
    refine (congrArg List.tail h).trans ?_
    unfold Scopes.enterMembers
    rw [stack_declareAll, tail_declareTop]
    exact (declareTop_nil _).symm
  | .typeDef _ _ => exact (declareTop_nil _).symm

theorem Stmt.stack_nextList (l : List Stmt) (s : Scopes) :
    ((Stmt.resolveList l).next s).stack = declareTop (Stmt.declaredList l) s.stack := by
  match l with
  | [] => exact (declareTop_nil _).symm
  | t :: rest =>
    refine (Stmt.stack_nextList rest (t.resolve.next s)).trans ?_
    rw [t.stack_next, ← declareTop_append]
    rfl

theorem Stmt.stack_nextOption (o : Option Stmt) (s : Scopes) :
    ((Stmt.resolveOption o).next s).stack = declareTop (Stmt.declaredOption o) s.stack := by
  match o with
  | none => exact (declareTop_nil _).symm
  | some t => exact t.stack_next s

end

/-! What holds of all nodes of a tree holds of all nodes that the analysis comes to. -/

section Nodes

variable {P : Node → Prop}

mutual

theorem Expr.forall_visits (e : Expr) (s : Scopes) (p : List Opener) (h : ∀ n ∈ e.nodes, P n) :
    ∀ v ∈ e.visits s p, P v.node := by
  obtain ⟨he, h⟩ := List.forall_mem_cons.1 (by unfold Expr.nodes at h; exact h)
  match e, he, h with
  | .literal _, _, _ => exact List.forall_mem_nil _
  | .variable _, he, _ | .selfRef _, he, _ | .superRef _, he, _ => exact List.forall_mem_singleton.2 he
  | .grouping inner, _, h => exact inner.forall_visits s p h
  | .unary _ _ operand, _, h => exact operand.forall_visits s p h
  | .binary left _ _ right, _, h | .logical left _ right, _, h =>
    obtain ⟨hl, hr⟩ := List.forall_mem_append.1 h
    exact List.forall_mem_append.2 ⟨left.forall_visits s p hl, right.forall_visits _ p hr⟩
  | .ternary condition yes no, _, h =>
    obtain ⟨h, hn⟩ := List.forall_mem_append.1 h
    obtain ⟨hc, hy⟩ := List.forall_mem_append.1 h
    exact List.forall_mem_append.2 ⟨List.forall_mem_append.2 ⟨condition.forall_visits s p hc,
      yes.forall_visits _ p hy⟩, no.forall_visits _ p hn⟩
  | .assign _ _ _ value, he, h =>
    exact List.forall_mem_append.2 ⟨value.forall_visits s p h, List.forall_mem_singleton.2 he⟩
  | .array items, _, h => exact Expr.forall_visitsList items s p h
  | .index object place, _, h =>
    obtain ⟨ho, hp⟩ := List.forall_mem_append.1 h
    exact List.forall_mem_append.2 ⟨object.forall_visits s p ho, place.forall_visits _ p hp⟩
  | .setIndex object place _ _ value, _, h =>
    obtain ⟨h, hv⟩ := List.forall_mem_append.1 h
    obtain ⟨ho, hp⟩ := List.forall_mem_append.1 h
    exact List.forall_mem_append.2 ⟨List.forall_mem_append.2 ⟨value.forall_visits s p hv,
      object.forall_visits _ p ho⟩, place.forall_visits _ p hp⟩
  | .get object _, _, h => exact object.forall_visits s p h
  | .set object _ _ _ value, _, h =>
    obtain ⟨ho, hv⟩ := List.forall_mem_append.1 h
    exact List.forall_mem_append.2 ⟨value.forall_visits s p hv, object.forall_visits _ p ho⟩
  | .call callee args, _, h =>
    obtain ⟨hc, ha⟩ := List.forall_mem_append.1 h
    exact List.forall_mem_append.2 ⟨callee.forall_visits s p hc, Expr.forall_visitsList args _ p ha⟩
  | .block _ params body, _, h => exact Stmt.forall_visitsList body _ _ h

theorem Expr.forall_visitsList (l : List Expr) (s : Scopes) (p : List Opener) (h : ∀ n ∈ Expr.nodesList l, P n) :
    ∀ v ∈ Expr.visitsList l s p, P v.node := by
  match l with
  | [] => exact List.forall_mem_nil _
  | e :: rest =>
    obtain ⟨he, hr⟩ := List.forall_mem_append.1 h
    exact List.forall_mem_append.2 ⟨e.forall_visits s p he, Expr.forall_visitsList rest _ p hr⟩

theorem Expr.forall_visitsOption (o : Option Expr) (s : Scopes) (p : List Opener)
    (h : ∀ n ∈ Expr.nodesOption o, P n) : ∀ v ∈ Expr.visitsOption o s p, P v.node := by
  match o with
  | none => exact List.forall_mem_nil _
  | some e => exact e.forall_visits s p h

theorem VarDecl.forall_visitsProperties (className : String) (l : List VarDecl) (s : Scopes) (p : List Opener)
    (h : ∀ n ∈ VarDecl.nodesList l, P n) : ∀ v ∈ VarDecl.visitsProperties className l s p, P v.node := by
  match l with
  | [] => exact List.forall_mem_nil _
  | ⟨_, _, init⟩ :: rest =>
    obtain ⟨hi, hr⟩ := List.forall_mem_append.1 h
    exact List.forall_mem_append.2 ⟨Expr.forall_visitsOption init _ p hi,
      VarDecl.forall_visitsProperties className rest _ p hr⟩

theorem FunctionDecl.forall_visitsList (l : List FunctionDecl) (s : Scopes) (p : List Opener)
    (h : ∀ n ∈ FunctionDecl.nodesList l, P n) : ∀ v ∈ FunctionDecl.visitsList l s p, P v.node := by
  match l with
  | [] => exact List.forall_mem_nil _
  | ⟨_, _, body, _⟩ :: rest =>
    obtain ⟨hb, hr⟩ := List.forall_mem_append.1 h
    exact List.forall_mem_append.2 ⟨Stmt.forall_visitsList body _ _ hb,
      FunctionDecl.forall_visitsList rest _ p hr⟩

theorem Stmt.forall_visits (t : Stmt) (s : Scopes) (p : List Opener) (h : ∀ n ∈ t.nodes, P n) :
    ∀ v ∈ t.visits s p, P v.node := by
  obtain ⟨ht, h⟩ := List.forall_mem_cons.1 (by unfold Stmt.nodes at h; exact h)
  unfold Stmt.visits
  refine List.forall_mem_cons.2 ⟨ht, ?_⟩
  match t, h with
  | .block body, h => exact Stmt.forall_visitsList body _ _ h
  | .branch condition yes no, h =>
    obtain ⟨h, hn⟩ := List.forall_mem_append.1 h
    obtain ⟨hc, hy⟩ := List.forall_mem_append.1 h
    exact List.forall_mem_append.2 ⟨List.forall_mem_append.2 ⟨condition.forall_visits s p hc,
      yes.forall_visits _ p hy⟩, Stmt.forall_visitsOption no _ p hn⟩
  | .loop condition body, h =>
    obtain ⟨hc, hb⟩ := List.forall_mem_append.1 h
    exact List.forall_mem_append.2 ⟨condition.forall_visits s p hc, body.forall_visits _ p hb⟩
  | .count init condition step body, h =>
    obtain ⟨h, hb⟩ := List.forall_mem_append.1 h
    obtain ⟨h, hs⟩ := List.forall_mem_append.1 h
    obtain ⟨hi, hc⟩ := List.forall_mem_append.1 h
    exact List.forall_mem_append.2 ⟨List.forall_mem_append.2 ⟨List.forall_mem_append.2
      ⟨Stmt.forall_visitsOption init s p hi, Expr.forall_visitsOption condition _ p hc⟩,
      Expr.forall_visitsOption step _ p hs⟩, body.forall_visits _ p hb⟩
  | .result value, h => exact Expr.forall_visitsOption value s p h
  | .expr e, h => exact e.forall_visits s p h
  | .var ⟨_, _, init⟩, h => exact Expr.forall_visitsOption init _ p h
  | .function ⟨_, _, body, _⟩, h => exact Stmt.forall_visitsList body _ _ h
  | .print value, h => exact value.forall_visits s p h
  | .classDef name superclass _ properties, h =>
    obtain ⟨hs, h⟩ := List.forall_mem_append.1 h
    obtain ⟨-, hp⟩ := List.forall_mem_append.1 h
    refine List.forall_mem_append.2 ⟨fun v hv => ?_, VarDecl.forall_visitsProperties name.text properties _ p hp⟩
    obtain ⟨ref, href, rfl⟩ := List.mem_map.1 hv
    exact hs _ (List.mem_map_of_mem href)
  | .classImpl name methods, h => exact FunctionDecl.forall_visitsList methods _ p h
  | .typeDef _ _, _ => exact List.forall_mem_nil _

theorem Stmt.forall_visitsList (l : List Stmt) (s : Scopes) (p : List Opener) (h : ∀ n ∈ Stmt.nodesList l, P n) :
    ∀ v ∈ Stmt.visitsList l s p, P v.node := by
  match l with
  | [] => exact List.forall_mem_nil _
  | t :: rest =>
    obtain ⟨ht, hr⟩ := List.forall_mem_append.1 h
    exact List.forall_mem_append.2 ⟨t.forall_visits s p ht, Stmt.forall_visitsList rest _ p hr⟩

theorem Stmt.forall_visitsOption (o : Option Stmt) (s : Scopes) (p : List Opener)
    (h : ∀ n ∈ Stmt.nodesOption o, P n) : ∀ v ∈ Stmt.visitsOption o s p, P v.node := by
  match o with
  | none => exact List.forall_mem_nil _
  | some t => exact t.forall_visits s p h

end

end Nodes

end ObjScript
