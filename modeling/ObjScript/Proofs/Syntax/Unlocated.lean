import ObjScript.Parser.Error
import ObjScript.Syntax

/-!
# Trees without their places

`unlocated` replaces every line and column by the same ones, in tokens, in names and operators, and in what is built
from them.  Two things that are equal after this differ in their places alone.
-/

namespace ObjScript

/-- The place of everything that has lost its own.  The end token behind an empty token list has it from the start. -/
def Pos.nowhere : Pos := ⟨0, 0⟩

/-- The token without its place. -/
def Token.unlocated (t : Token) : Token :=
  { t with pos := .nowhere }

/-- The name without its place. -/
def Name.unlocated (name : Name) : Name :=
  { name with pos := .nowhere }

/-- The reference without its place. -/
def Ref.unlocated (ref : Ref) : Ref :=
  { ref with name := ref.name.unlocated }

/-- The error without its place. -/
def SyntaxError.unlocated (e : SyntaxError) : SyntaxError :=
  { e with pos := .nowhere }

mutual

/-- The type without its places. -/
def TypeExpr.unlocated : TypeExpr → TypeExpr
  | .missing => .missing
  | .named token => .named token.unlocated
  | .block returns name params =>
    .block returns.unlocated (name.map Name.unlocated) (TypeExpr.unlocatedList params)

/-- The types of a list without their places. -/
def TypeExpr.unlocatedList : List TypeExpr → List TypeExpr
  | [] => []
  | t :: rest => t.unlocated :: TypeExpr.unlocatedList rest

end

/-- The parameter without its places. -/
def Param.unlocated (p : Param) : Param :=
  ⟨p.type.unlocated, p.name.unlocated⟩

mutual

/-- The expression without its places. -/
def Expr.unlocated : Expr → Expr
  | .literal value => .literal value
  | .variable ref => .variable ref.unlocated
  | .selfRef ref => .selfRef ref.unlocated
  | .superRef ref => .superRef ref.unlocated
  | .grouping inner => .grouping inner.unlocated
  | .unary op _ operand => .unary op .nowhere operand.unlocated
  | .binary left op _ right => .binary left.unlocated op .nowhere right.unlocated
  | .logical left op right => .logical left.unlocated op right.unlocated
  | .ternary condition yes no => .ternary condition.unlocated yes.unlocated no.unlocated
  | .assign target op _ value => .assign target.unlocated op .nowhere value.unlocated
  | .array items => .array (Expr.unlocatedList items)
  | .index object place => .index object.unlocated place.unlocated
  | .setIndex object place op _ value =>
    .setIndex object.unlocated place.unlocated op .nowhere value.unlocated
  | .get object name => .get object.unlocated name.unlocated
  | .set object name op _ value => .set object.unlocated name.unlocated op .nowhere value.unlocated
  | .call callee args => .call callee.unlocated (Expr.unlocatedList args)
  | .block returns params body =>
    .block (returns.map TypeExpr.unlocated) (params.map Param.unlocated) (Stmt.unlocatedList body)

/-- The expressions of a list without their places. -/
def Expr.unlocatedList : List Expr → List Expr
  | [] => []
  | e :: rest => e.unlocated :: Expr.unlocatedList rest

/-- The expression without its places, if there is one. -/
def Expr.unlocatedOption : Option Expr → Option Expr
  | none => none
  | some e => some e.unlocated

/-- The declaration of a variable without its places. -/
def VarDecl.unlocated : VarDecl → VarDecl
  | ⟨type, name, init⟩ => ⟨type.unlocated, name.unlocated, Expr.unlocatedOption init⟩

/-- The declarations of a list without their places. -/
def VarDecl.unlocatedList : List VarDecl → List VarDecl
  | [] => []
  | d :: rest => d.unlocated :: VarDecl.unlocatedList rest

/-- The function without its places. -/
def FunctionDecl.unlocated : FunctionDecl → FunctionDecl
  | ⟨name, params, body, isStatic⟩ =>
    ⟨name.unlocated, params.map Param.unlocated, Stmt.unlocatedList body, isStatic⟩

/-- The functions of a list without their places. -/
def FunctionDecl.unlocatedList : List FunctionDecl → List FunctionDecl
  | [] => []
  | d :: rest => d.unlocated :: FunctionDecl.unlocatedList rest

/-- The statement without its places. -/
def Stmt.unlocated : Stmt → Stmt
  | .block body => .block (Stmt.unlocatedList body)
  | .branch condition yes no => .branch condition.unlocated yes.unlocated (Stmt.unlocatedOption no)
  | .loop condition body => .loop condition.unlocated body.unlocated
  | .count init condition step body =>
    .count (Stmt.unlocatedOption init) (Expr.unlocatedOption condition) (Expr.unlocatedOption step) body.unlocated
  | .result value => .result (Expr.unlocatedOption value)
  | .expr e => .expr e.unlocated
  | .var decl => .var decl.unlocated
  | .function decl => .function decl.unlocated
  | .print value => .print value.unlocated
  | .classDef name superclass methods properties =>
    .classDef name.unlocated (superclass.map Ref.unlocated) (FunctionDecl.unlocatedList methods)
      (VarDecl.unlocatedList properties)
  | .classImpl name methods => .classImpl name.unlocated (FunctionDecl.unlocatedList methods)
  | .typeDef name type => .typeDef name.unlocated type.unlocated

/-- The statements of a list without their places. -/
def Stmt.unlocatedList : List Stmt → List Stmt
  | [] => []
  | t :: rest => t.unlocated :: Stmt.unlocatedList rest

/-- The statement without its places, if there is one. -/
def Stmt.unlocatedOption : Option Stmt → Option Stmt
  | none => none
  | some t => some t.unlocated

end

section Lists

@[simp] theorem TypeExpr.unlocatedList_eq (l : List TypeExpr) :
    TypeExpr.unlocatedList l = l.map TypeExpr.unlocated := by
  induction l with
  | nil => rfl
  | cons t rest ih => exact congrArg (List.cons t.unlocated) ih

@[simp] theorem Expr.unlocatedList_eq (l : List Expr) : Expr.unlocatedList l = l.map Expr.unlocated := by
  induction l with
  | nil => rfl
  | cons e rest ih => exact congrArg (List.cons e.unlocated) ih

@[simp] theorem Expr.unlocatedOption_eq (o : Option Expr) : Expr.unlocatedOption o = o.map Expr.unlocated := by
  cases o <;> rfl

@[simp] theorem VarDecl.unlocatedList_eq (l : List VarDecl) : VarDecl.unlocatedList l = l.map VarDecl.unlocated := by
  induction l with
  | nil => rfl
  | cons d rest ih => exact congrArg (List.cons d.unlocated) ih

@[simp] theorem FunctionDecl.unlocatedList_eq (l : List FunctionDecl) :
    FunctionDecl.unlocatedList l = l.map FunctionDecl.unlocated := by
  induction l with
  | nil => rfl
  | cons d rest ih => exact congrArg (List.cons d.unlocated) ih

@[simp] theorem Stmt.unlocatedList_eq (l : List Stmt) : Stmt.unlocatedList l = l.map Stmt.unlocated := by
  induction l with
  | nil => rfl
  | cons t rest ih => exact congrArg (List.cons t.unlocated) ih

@[simp] theorem Stmt.unlocatedOption_eq (o : Option Stmt) : Stmt.unlocatedOption o = o.map Stmt.unlocated := by
  cases o <;> rfl

end Lists

/-- Tokens without their places are equal if their kinds and texts are. -/
theorem Token.map_unlocated_eq {tokens tokens' : List Token}
    (h : tokens.map (fun t => (t.kind, t.text)) = tokens'.map fun t => (t.kind, t.text)) :
    tokens.map Token.unlocated = tokens'.map Token.unlocated := by
  have hunlocated :
      Token.unlocated = (fun p : Kind × String => Token.mk p.1 p.2 .nowhere) ∘ fun t => (t.kind, t.text) :=
    rfl
  rw [hunlocated, ← List.map_map, ← List.map_map, h]

/-- Tokens that are equal without their places have the same kinds and texts. -/
theorem Token.map_kind_text_eq {tokens tokens' : List Token}
    (h : tokens.map Token.unlocated = tokens'.map Token.unlocated) :
    tokens.map (fun t => (t.kind, t.text)) = tokens'.map fun t => (t.kind, t.text) := by
  have hpair : (fun t : Token => (t.kind, t.text)) = (fun t : Token => (t.kind, t.text)) ∘ Token.unlocated := rfl
  rw [hpair, ← List.map_map, ← List.map_map, h]

@[simp] theorem Name.unlocated_text (name : Name) : name.unlocated.text = name.text := rfl

@[simp] theorem TypeExpr.unlocated_blockName? (t : TypeExpr) :
    t.unlocated.blockName? = t.blockName?.map Name.unlocated := by
  cases t <;> rfl

@[simp] theorem FunctionDecl.unlocated_name (d : FunctionDecl) : d.unlocated.name = d.name.unlocated := by
  obtain ⟨_, _, _, _⟩ := d
  rfl

@[simp] theorem FunctionDecl.unlocated_isStatic (d : FunctionDecl) : d.unlocated.isStatic = d.isStatic := by
  obtain ⟨_, _, _, _⟩ := d
  rfl

end ObjScript
