import ObjScript.Scope.Basic

/-!
# Finding the scope of every reference

Each reference gets the number of scopes between it and its declaration.  A name counts as declared from
its declaration on, and in its own initial value too.  The methods in an interface are not looked at.
-/

namespace ObjScript

open Resolve

/-- Declares the parameters. -/
def declareParams : List Param → Resolve Unit
  | [] => return ()
  | p :: rest => do
    declare p.name.text
    declareParams rest

/-- Declares each name of a list. -/
def declareAll : List String → Resolve Unit
  | [] => return ()
  | name :: rest => do
    declare name
    declareAll rest

mutual

/-- Finds the references in an expression.  The value of an assignment comes before its target. -/
def Expr.resolve : Expr → Resolve Expr
  | .literal value => return .literal value
  | .variable ref => return .variable (← reference .variable ref)
  | .selfRef ref => return .selfRef (← reference .selfRef ref)
  | .superRef ref => return .superRef (← reference .superRef ref)
  | .grouping inner => return .grouping (← inner.resolve)
  | .unary op pos operand => return .unary op pos (← operand.resolve)
  | .binary left op pos right => do
    let left ← left.resolve
    let right ← right.resolve
    return .binary left op pos right
  | .logical left op right => do
    let left ← left.resolve
    let right ← right.resolve
    return .logical left op right
  | .ternary condition yes no => do
    let condition ← condition.resolve
    let yes ← yes.resolve
    let no ← no.resolve
    return .ternary condition yes no
  | .assign target op pos value => do
    let value ← value.resolve
    let target ← reference .assign target
    return .assign target op pos value
  | .array items => return .array (← Expr.resolveList items)
  | .index object place => do
    let object ← object.resolve
    let place ← place.resolve
    return .index object place
  | .setIndex object place op pos value => do
    let value ← value.resolve
    let object ← object.resolve
    let place ← place.resolve
    return .setIndex object place op pos value
  | .get object name => return .get (← object.resolve) name
  | .set object name op pos value => do
    let value ← value.resolve
    let object ← object.resolve
    return .set object name op pos value
  | .call callee args => do
    let callee ← callee.resolve
    let args ← Expr.resolveList args
    return .call callee args
  | .block returns params body => do
    let body ← inScope do
      declareParams params
      Stmt.resolveList body
    return .block returns params body

/-- Finds the references in each expression of a list. -/
def Expr.resolveList : List Expr → Resolve (List Expr)
  | [] => return []
  | e :: rest => do
    let e ← e.resolve
    let rest ← Expr.resolveList rest
    return e :: rest

/-- Finds the references in an expression that may be absent. -/
def Expr.resolveOption : Option Expr → Resolve (Option Expr)
  | none => return none
  | some e => return some (← e.resolve)

/-- Finds the references in the initial value of a declaration. -/
def VarDecl.resolve : VarDecl → Resolve VarDecl
  | ⟨type, name, init⟩ => return ⟨type, name, ← Expr.resolveOption init⟩

/-- Notes each property of a class and finds the references in its initial value. -/
def VarDecl.resolveProperties (className : String) : List VarDecl → Resolve (List VarDecl)
  | [] => return []
  | ⟨type, name, init⟩ :: rest => do
    updateClass className fun info => { info with properties := info.properties ++ [name.text] }
    let init ← Expr.resolveOption init
    let rest ← VarDecl.resolveProperties className rest
    return ⟨type, name, init⟩ :: rest

/-- Finds the references in the body of a function, in a scope with its parameters. -/
def FunctionDecl.resolve : FunctionDecl → Resolve FunctionDecl
  | ⟨name, params, body, isStatic⟩ => do
    let body ← inScope do
      declareParams params
      Stmt.resolveList body
    return ⟨name, params, body, isStatic⟩

/-- Finds the references in each function of a list. -/
def FunctionDecl.resolveList : List FunctionDecl → Resolve (List FunctionDecl)
  | [] => return []
  | d :: rest => do
    let d ← d.resolve
    let rest ← FunctionDecl.resolveList rest
    return d :: rest

/-- Finds the references in a statement. -/
def Stmt.resolve : Stmt → Resolve Stmt
  | .block body => return .block (← inScope (Stmt.resolveList body))
  | .branch condition yes no => do
    let condition ← condition.resolve
    let yes ← yes.resolve
    let no ← Stmt.resolveOption no
    return .branch condition yes no
  | .loop condition body => do
    let condition ← condition.resolve
    let body ← body.resolve
    return .loop condition body
  | .count init condition step body => do
    let init ← Stmt.resolveOption init
    let condition ← Expr.resolveOption condition
    let step ← Expr.resolveOption step
    let body ← body.resolve
    return .count init condition step body
  | .result value => return .result (← Expr.resolveOption value)
  | .expr e => return .expr (← e.resolve)
  | .var decl => do
    declare decl.name.text
    return .var (← decl.resolve)
  | .function decl => do
    declare decl.name.text
    return .function (← decl.resolve)
  | .print value => return .print (← value.resolve)
  | .classDef name superclass methods properties => do
    declare name.text
    let superclass ← match superclass with
      | none => pure none
      | some ref => some <$> reference .variable ref
    updateClass name.text fun info =>
      { info with superclass := (superclass.map (·.name.text)).or info.superclass }
    let properties ← VarDecl.resolveProperties name.text properties
    updateClass name.text fun info =>
      { info with methods := info.methods ++ methods.map (·.name.text) }
    return .classDef name superclass methods properties
  | .classImpl name methods => do
    updateClass name.text fun info =>
      { info with methods := info.methods ++ methods.map (·.name.text) }
    let members := (← get).classes.members name.text
    let methods ← inScope do
      declareAll ("self" :: "super" :: members)
      FunctionDecl.resolveList methods
    return .classImpl name methods
  | .typeDef name type => return .typeDef name type

/-- Finds the references in each statement of a list. -/
def Stmt.resolveList : List Stmt → Resolve (List Stmt)
  | [] => return []
  | s :: rest => do
    let s ← s.resolve
    let rest ← Stmt.resolveList rest
    return s :: rest

/-- Finds the references in a statement that may be absent. -/
def Stmt.resolveOption : Option Stmt → Resolve (Option Stmt)
  | none => return none
  | some s => return some (← s.resolve)

end

/-- Finds the references in a program, starting from what is known already.  The reports are those of this
program alone. -/
def resolveProgram (scopes : Scopes) (stmts : List Stmt) : List Stmt × Scopes :=
  (Stmt.resolveList stmts).run { scopes with reports := #[] }

end ObjScript
