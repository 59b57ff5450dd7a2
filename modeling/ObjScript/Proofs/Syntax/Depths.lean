import Mathlib.Data.List.Basic
import ObjScript.Proofs.Scope.Visits

/-!
# Trees with other depths

`withDepths g` replaces the depth of every reference of a tree by what `g` makes of it.  The methods in an
interface are left as they are: nothing ever runs them.

If `g` forgets the depths, this undoes the analysis of scopes (`Stmt.forget_valueList`).
-/

namespace ObjScript

/-- The reference with another depth. -/
def Ref.withDepths (g : Option Nat → Option Nat) (ref : Ref) : Ref :=
  { ref with depth := g ref.depth }

mutual

/-- The expression with other depths. -/
def Expr.withDepths (g : Option Nat → Option Nat) : Expr → Expr
  | .literal value => .literal value
  | .variable ref => .variable (ref.withDepths g)
  | .selfRef ref => .selfRef (ref.withDepths g)
  | .superRef ref => .superRef (ref.withDepths g)
  | .grouping inner => .grouping (inner.withDepths g)
  | .unary op pos operand => .unary op pos (operand.withDepths g)
  | .binary left op pos right => .binary (left.withDepths g) op pos (right.withDepths g)
  | .logical left op right => .logical (left.withDepths g) op (right.withDepths g)
  | .ternary condition yes no => .ternary (condition.withDepths g) (yes.withDepths g) (no.withDepths g)
  | .assign target op pos value => .assign (target.withDepths g) op pos (value.withDepths g)
  | .array items => .array (Expr.withDepthsList g items)
  | .index object place => .index (object.withDepths g) (place.withDepths g)
  | .setIndex object place op pos value =>
    .setIndex (object.withDepths g) (place.withDepths g) op pos (value.withDepths g)
  | .get object name => .get (object.withDepths g) name
  | .set object name op pos value => .set (object.withDepths g) name op pos (value.withDepths g)
  | .call callee args => .call (callee.withDepths g) (Expr.withDepthsList g args)
  | .block returns params body => .block returns params (Stmt.withDepthsList g body)

/-- The expressions of a list with other depths. -/
def Expr.withDepthsList (g : Option Nat → Option Nat) : List Expr → List Expr
  | [] => []
  | e :: rest => e.withDepths g :: Expr.withDepthsList g rest

/-- The expression with other depths, if there is one. -/
def Expr.withDepthsOption (g : Option Nat → Option Nat) : Option Expr → Option Expr
  | none => none
  | some e => some (e.withDepths g)

/-- The initial values with other depths. -/
def VarDecl.withDepthsList (g : Option Nat → Option Nat) : List VarDecl → List VarDecl
  | [] => []
  | ⟨type, name, init⟩ :: rest =>
    ⟨type, name, Expr.withDepthsOption g init⟩ :: VarDecl.withDepthsList g rest

/-- The function with other depths. -/
def FunctionDecl.withDepths (g : Option Nat → Option Nat) : FunctionDecl → FunctionDecl
  | ⟨name, params, body, isStatic⟩ => ⟨name, params, Stmt.withDepthsList g body, isStatic⟩

/-- The functions of a list with other depths. -/
def FunctionDecl.withDepthsList (g : Option Nat → Option Nat) : List FunctionDecl → List FunctionDecl
  | [] => []
  | d :: rest => d.withDepths g :: FunctionDecl.withDepthsList g rest

/-- The statement with other depths. -/
def Stmt.withDepths (g : Option Nat → Option Nat) : Stmt → Stmt
  | .block body => .block (Stmt.withDepthsList g body)
  | .branch condition yes no =>
    .branch (condition.withDepths g) (yes.withDepths g) (Stmt.withDepthsOption g no)
  | .loop condition body => .loop (condition.withDepths g) (body.withDepths g)
  | .count init condition step body =>
    .count (Stmt.withDepthsOption g init) (Expr.withDepthsOption g condition) (Expr.withDepthsOption g step)
      (body.withDepths g)
  | .result value => .result (Expr.withDepthsOption g value)
  | .expr e => .expr (e.withDepths g)
  | .var ⟨type, name, init⟩ => .var ⟨type, name, Expr.withDepthsOption g init⟩
  | .function decl => .function (decl.withDepths g)
  | .print value => .print (value.withDepths g)
  | .classDef name superclass methods properties =>
    .classDef name (superclass.map (Ref.withDepths g)) methods (VarDecl.withDepthsList g properties)
  | .classImpl name methods => .classImpl name (FunctionDecl.withDepthsList g methods)
  | .typeDef name type => .typeDef name type

/-- The statements of a list with other depths. -/
def Stmt.withDepthsList (g : Option Nat → Option Nat) : List Stmt → List Stmt
  | [] => []
  | t :: rest => t.withDepths g :: Stmt.withDepthsList g rest

/-- The statement with other depths, if there is one. -/
def Stmt.withDepthsOption (g : Option Nat → Option Nat) : Option Stmt → Option Stmt
  | none => none
  | some t => some (t.withDepths g)

end

section Fields

variable (g : Option Nat → Option Nat) (d : FunctionDecl)

@[simp] theorem FunctionDecl.withDepths_name : (d.withDepths g).name = d.name := by
  obtain ⟨_, _, _, _⟩ := d
  rfl

@[simp] theorem FunctionDecl.withDepths_params : (d.withDepths g).params = d.params := by
  obtain ⟨_, _, _, _⟩ := d
  rfl

@[simp] theorem FunctionDecl.withDepths_body : (d.withDepths g).body = Stmt.withDepthsList g d.body := by
  obtain ⟨_, _, _, _⟩ := d
  rfl

@[simp] theorem FunctionDecl.withDepths_isStatic : (d.withDepths g).isStatic = d.isStatic := by
  obtain ⟨_, _, _, _⟩ := d
  rfl

end Fields

@[simp] theorem Ref.withDepths_id (ref : Ref) : ref.withDepths id = ref := rfl

mutual

@[simp] theorem Expr.withDepths_id (e : Expr) : e.withDepths id = e := by
  match e with
  | .literal _ | .variable _ | .selfRef _ | .superRef _ => rfl
  | .grouping inner => rw [Expr.withDepths, inner.withDepths_id]
  | .unary _ _ operand => rw [Expr.withDepths, operand.withDepths_id]
  | .binary left _ _ right => rw [Expr.withDepths, left.withDepths_id, right.withDepths_id]
  | .logical left _ right => rw [Expr.withDepths, left.withDepths_id, right.withDepths_id]
  | .ternary condition yes no =>
    rw [Expr.withDepths, condition.withDepths_id, yes.withDepths_id, no.withDepths_id]
  | .assign _ _ _ value => rw [Expr.withDepths, Ref.withDepths_id, value.withDepths_id]
  | .array items => rw [Expr.withDepths, Expr.withDepthsList_id items]
  | .index object place => rw [Expr.withDepths, object.withDepths_id, place.withDepths_id]
  | .setIndex object place _ _ value =>
    rw [Expr.withDepths, object.withDepths_id, place.withDepths_id, value.withDepths_id]
  | .get object _ => rw [Expr.withDepths, object.withDepths_id]
  | .set object _ _ _ value => rw [Expr.withDepths, object.withDepths_id, value.withDepths_id]
  | .call callee args => rw [Expr.withDepths, callee.withDepths_id, Expr.withDepthsList_id args]
  | .block _ _ body => rw [Expr.withDepths, Stmt.withDepthsList_id body]

theorem Expr.withDepthsList_id (l : List Expr) : Expr.withDepthsList id l = l := by
  match l with
  | [] => rfl
  | e :: rest => rw [Expr.withDepthsList, e.withDepths_id, Expr.withDepthsList_id rest]

theorem Expr.withDepthsOption_id (o : Option Expr) : Expr.withDepthsOption id o = o := by
  match o with
  | none => rfl
  | some e => rw [Expr.withDepthsOption, e.withDepths_id]

theorem VarDecl.withDepthsList_id (l : List VarDecl) : VarDecl.withDepthsList id l = l := by
  match l with
  | [] => rfl
  | ⟨_, _, init⟩ :: rest =>
    rw [VarDecl.withDepthsList, Expr.withDepthsOption_id init, VarDecl.withDepthsList_id rest]

@[simp] theorem FunctionDecl.withDepths_id (d : FunctionDecl) : d.withDepths id = d := by
  match d with
  | ⟨_, _, body, _⟩ => rw [FunctionDecl.withDepths, Stmt.withDepthsList_id body]

theorem FunctionDecl.withDepthsList_id (l : List FunctionDecl) : FunctionDecl.withDepthsList id l = l := by
  match l with
  | [] => rfl
  | d :: rest => rw [FunctionDecl.withDepthsList, d.withDepths_id, FunctionDecl.withDepthsList_id rest]

@[simp] theorem Stmt.withDepths_id (t : Stmt) : t.withDepths id = t := by
  match t with
  | .block body => rw [Stmt.withDepths, Stmt.withDepthsList_id body]
  | .branch condition yes no =>
    rw [Stmt.withDepths, condition.withDepths_id, yes.withDepths_id, Stmt.withDepthsOption_id no]
  | .loop condition body => rw [Stmt.withDepths, condition.withDepths_id, body.withDepths_id]
  | .count init condition step body =>
    rw [Stmt.withDepths, Stmt.withDepthsOption_id init, Expr.withDepthsOption_id condition,
      Expr.withDepthsOption_id step, body.withDepths_id]
  | .result value => rw [Stmt.withDepths, Expr.withDepthsOption_id value]
  | .expr e => rw [Stmt.withDepths, e.withDepths_id]
  | .var ⟨_, _, init⟩ => rw [Stmt.withDepths, Expr.withDepthsOption_id init]
  | .function decl => rw [Stmt.withDepths, decl.withDepths_id]
  | .print value => rw [Stmt.withDepths, value.withDepths_id]
  | .classDef _ superclass _ properties =>
    rw [Stmt.withDepths, VarDecl.withDepthsList_id properties]
    cases superclass <;> rfl
  | .classImpl _ methods => rw [Stmt.withDepths, FunctionDecl.withDepthsList_id methods]
  | .typeDef _ _ => rfl

@[simp] theorem Stmt.withDepthsList_id (l : List Stmt) : Stmt.withDepthsList id l = l := by
  match l with
  | [] => rfl
  | t :: rest => rw [Stmt.withDepthsList, t.withDepths_id, Stmt.withDepthsList_id rest]

theorem Stmt.withDepthsOption_id (o : Option Stmt) : Stmt.withDepthsOption id o = o := by
  match o with
  | none => rfl
  | some t => rw [Stmt.withDepthsOption, t.withDepths_id]

end

/-- A reference as the parser builds it comes back when its depth is forgotten. -/
private theorem forget_reference (kind : RefKind) (ref : Ref) (s : Scopes) (h : ref.depth = none) :
    ((Resolve.reference kind ref).value s).withDepths (fun _ => none) = ref := by
  rw [value_reference kind ref s h, ← h]
  rfl

/-! Forgetting the depths gives back what the parser built. -/

open List in
mutual

theorem Expr.forget_value (e : Expr) (s : Scopes) (h : ∀ n ∈ e.nodes, n.AsParsed) :
    (e.resolve.value s).withDepths (fun _ => none) = e := by
  match e, h with
  | .literal _, _ => rfl
  | .variable ref, h => exact congrArg Expr.variable (forget_reference _ ref s (h _ mem_cons_self))
  | .selfRef ref, h => exact congrArg Expr.selfRef (forget_reference _ ref s (h _ mem_cons_self))
  | .superRef ref, h => exact congrArg Expr.superRef (forget_reference _ ref s (h _ mem_cons_self))
  | .grouping inner, h => exact congrArg Expr.grouping (inner.forget_value s (forall_mem_cons.1 h).2)
  | .unary op pos operand, h =>
    exact congrArg (Expr.unary op pos) (operand.forget_value s (forall_mem_cons.1 h).2)
  | .binary left op pos right, h =>
    obtain ⟨hl, hr⟩ := forall_mem_append.1 (forall_mem_cons.1 h).2
    exact congrArg₂ (Expr.binary · op pos ·) (left.forget_value s hl) (right.forget_value _ hr)
  | .logical left op right, h =>
    obtain ⟨hl, hr⟩ := forall_mem_append.1 (forall_mem_cons.1 h).2
    exact congrArg₂ (Expr.logical · op ·) (left.forget_value s hl) (right.forget_value _ hr)
  | .ternary condition yes no, h =>
    obtain ⟨h, hn⟩ := forall_mem_append.1 (forall_mem_cons.1 h).2
    obtain ⟨hc, hy⟩ := forall_mem_append.1 h
    let s₁ := condition.resolve.next s
    have hyes := congrArg₂ Expr.ternary (condition.forget_value s hc) (yes.forget_value s₁ hy)
    have hall := congr hyes (no.forget_value (yes.resolve.next s₁) hn)
    exact hall
  | .assign target op pos value, h =>
    obtain ⟨ht, hv⟩ := forall_mem_cons.1 h
    exact congrArg₂ (Expr.assign · op pos ·) (forget_reference _ target _ ht) (value.forget_value s hv)
  | .array items, h => exact congrArg Expr.array (Expr.forget_valueList items s (forall_mem_cons.1 h).2)
  | .index object place, h =>
    obtain ⟨ho, hp⟩ := forall_mem_append.1 (forall_mem_cons.1 h).2
    exact congrArg₂ Expr.index (object.forget_value s ho) (place.forget_value _ hp)
  | .setIndex object place op pos value, h =>
    obtain ⟨h, hv⟩ := forall_mem_append.1 (forall_mem_cons.1 h).2
    obtain ⟨ho, hp⟩ := forall_mem_append.1 h
    let s₁ := value.resolve.next s
    have hparts := congrArg₂ (Expr.setIndex · · op pos) (object.forget_value s₁ ho)
      (place.forget_value (object.resolve.next s₁) hp)
    have hall := congr hparts (value.forget_value s hv)
    exact hall
  | .get object name, h => exact congrArg (Expr.get · name) (object.forget_value s (forall_mem_cons.1 h).2)
  | .set object name op pos value, h =>
    obtain ⟨ho, hv⟩ := forall_mem_append.1 (forall_mem_cons.1 h).2
    exact congrArg₂ (Expr.set · name op pos ·) (object.forget_value _ ho) (value.forget_value s hv)
  | .call callee args, h =>
    obtain ⟨hc, ha⟩ := forall_mem_append.1 (forall_mem_cons.1 h).2
    exact congrArg₂ Expr.call (callee.forget_value s hc) (Expr.forget_valueList args _ ha)
  | .block returns params body, h =>
    exact congrArg (Expr.block returns params) (Stmt.forget_valueList body _ (forall_mem_cons.1 h).2)

theorem Expr.forget_valueList (l : List Expr) (s : Scopes) (h : ∀ n ∈ Expr.nodesList l, n.AsParsed) :
    Expr.withDepthsList (fun _ => none) ((Expr.resolveList l).value s) = l := by
  match l, h with
  | [], _ => rfl
  | e :: rest, h =>
    obtain ⟨he, hr⟩ := forall_mem_append.1 h
    exact congrArg₂ cons (e.forget_value s he) (Expr.forget_valueList rest _ hr)

theorem Expr.forget_valueOption (o : Option Expr) (s : Scopes) (h : ∀ n ∈ Expr.nodesOption o, n.AsParsed) :
    Expr.withDepthsOption (fun _ => none) ((Expr.resolveOption o).value s) = o := by
  match o, h with
  | none, _ => rfl
  | some e, h => exact congrArg some (e.forget_value s h)

theorem VarDecl.forget_valueProperties (className : String) (l : List VarDecl) (s : Scopes)
    (h : ∀ n ∈ VarDecl.nodesList l, n.AsParsed) :
    VarDecl.withDepthsList (fun _ => none) ((VarDecl.resolveProperties className l).value s) = l := by
  match l, h with
  | [], _ => rfl
  | ⟨type, name, init⟩ :: rest, h =>
    obtain ⟨hi, hr⟩ := forall_mem_append.1 h
    exact congrArg₂ cons (congrArg (VarDecl.mk type name) (Expr.forget_valueOption init _ hi))
      (VarDecl.forget_valueProperties className rest _ hr)

theorem FunctionDecl.forget_value (d : FunctionDecl) (s : Scopes) (h : ∀ n ∈ d.nodes, n.AsParsed) :
    (d.resolve.value s).withDepths (fun _ => none) = d := by
  match d, h with
  | ⟨name, params, body, isStatic⟩, h =>
    exact congrArg (FunctionDecl.mk name params · isStatic) (Stmt.forget_valueList body _ h)

theorem FunctionDecl.forget_valueList (l : List FunctionDecl) (s : Scopes)
    (h : ∀ n ∈ FunctionDecl.nodesList l, n.AsParsed) :
    FunctionDecl.withDepthsList (fun _ => none) ((FunctionDecl.resolveList l).value s) = l := by
  match l, h with
  | [], _ => rfl
  | d :: rest, h =>
    obtain ⟨hd, hr⟩ := forall_mem_append.1 h
    exact congrArg₂ cons (d.forget_value s hd) (FunctionDecl.forget_valueList rest _ hr)

theorem Stmt.forget_value (t : Stmt) (s : Scopes) (h : ∀ n ∈ t.nodes, n.AsParsed) :
    (t.resolve.value s).withDepths (fun _ => none) = t := by
  match t, h with
  | .block body, h => exact congrArg Stmt.block (Stmt.forget_valueList body _ (forall_mem_cons.1 h).2)
  | .branch condition yes no, h =>
    obtain ⟨h, hn⟩ := forall_mem_append.1 (forall_mem_cons.1 h).2
    obtain ⟨hc, hy⟩ := forall_mem_append.1 h
    exact congr (congrArg₂ Stmt.branch (condition.forget_value s hc) (yes.forget_value _ hy))
      (Stmt.forget_valueOption no _ hn)
  | .loop condition body, h =>
    obtain ⟨hc, hb⟩ := forall_mem_append.1 (forall_mem_cons.1 h).2
    exact congrArg₂ Stmt.loop (condition.forget_value s hc) (body.forget_value _ hb)
  | .count init condition step body, h =>
    obtain ⟨h, hb⟩ := forall_mem_append.1 (forall_mem_cons.1 h).2
    obtain ⟨h, hs⟩ := forall_mem_append.1 h
    obtain ⟨hi, hc⟩ := forall_mem_append.1 h
    let s₁ := (Stmt.resolveOption init).next s
    let s₂ := (Expr.resolveOption condition).next s₁
    have hhead := congr (congrArg₂ Stmt.count (Stmt.forget_valueOption init s hi)
      (Expr.forget_valueOption condition s₁ hc)) (Expr.forget_valueOption step s₂ hs)
    have hall := congr hhead (body.forget_value ((Expr.resolveOption step).next s₂) hb)
    exact hall
  | .result value, h => exact congrArg Stmt.result (Expr.forget_valueOption value s (forall_mem_cons.1 h).2)
  | .expr e, h => exact congrArg Stmt.expr (e.forget_value s (forall_mem_cons.1 h).2)
  | .var ⟨type, name, init⟩, h =>
    exact congrArg (fun init => Stmt.var ⟨type, name, init⟩)
      (Expr.forget_valueOption init _ (forall_mem_cons.1 h).2)
  | .function decl, h => exact congrArg Stmt.function (decl.forget_value _ (forall_mem_cons.1 h).2)
  | .print value, h => exact congrArg Stmt.print (value.forget_value s (forall_mem_cons.1 h).2)
  | .classDef name superclass methods properties, h =>
    obtain ⟨hs, h⟩ := forall_mem_append.1 (forall_mem_cons.1 h).2
    obtain ⟨-, hp⟩ := forall_mem_append.1 h
    have hproperties := fun s => VarDecl.forget_valueProperties name.text properties s hp
    cases superclass with
    | none => exact congrArg (Stmt.classDef name none methods) (hproperties _)
    | some ref =>
      have href := forget_reference .variable ref ((Resolve.declare name.text).next s)
        (hs _ (mem_map_of_mem (Option.mem_toList.2 rfl)))
      exact congrArg₂ (Stmt.classDef name · methods ·) (congrArg some href) (hproperties _)
  | .classImpl name methods, h =>
    exact congrArg (Stmt.classImpl name) (FunctionDecl.forget_valueList methods _ (forall_mem_cons.1 h).2)
  | .typeDef _ _, _ => rfl

theorem Stmt.forget_valueList (l : List Stmt) (s : Scopes) (h : ∀ n ∈ Stmt.nodesList l, n.AsParsed) :
    Stmt.withDepthsList (fun _ => none) ((Stmt.resolveList l).value s) = l := by
  match l, h with
  | [], _ => rfl
  | t :: rest, h =>
    obtain ⟨ht, hr⟩ := forall_mem_append.1 h
    exact congrArg₂ cons (t.forget_value s ht) (Stmt.forget_valueList rest _ hr)

theorem Stmt.forget_valueOption (o : Option Stmt) (s : Scopes) (h : ∀ n ∈ Stmt.nodesOption o, n.AsParsed) :
    Stmt.withDepthsOption (fun _ => none) ((Stmt.resolveOption o).value s) = o := by
  match o, h with
  | none, _ => rfl
  | some t, h => exact congrArg some (t.forget_value s h)

end

end ObjScript
