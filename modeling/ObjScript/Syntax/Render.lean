import ObjScript.Number.Text
import ObjScript.Syntax

/-!
# Trees in brackets

A compact form of a tree on one line: every node is a bracket with its name first and its parts after it,
as in `(varStmt int x (+ 1 2))`.  Absent parts leave nothing behind.
-/

namespace ObjScript

/-- A bracket with its name and its parts. -/
def bracket (name : String) (parts : List String) : String :=
  "(" ++ name ++ String.join (parts.map (" " ++ ·)) ++ ")"

/-- How a literal is shown. -/
def Literal.render : Literal → String
  | nil => "nil"
  | bool true => "true"
  | bool false => "false"
  | number x => Number.literalText x
  | string s => s

mutual

/-- A type in brackets. -/
def TypeExpr.render : TypeExpr → String
  | .missing => ""
  | .named token => token.text
  | .block returns _ params => bracket "blockType" (returns.render :: TypeExpr.renderList params)

/-- Each type of a list. -/
def TypeExpr.renderList : List TypeExpr → List String
  | [] => []
  | t :: rest => t.render :: TypeExpr.renderList rest

end

/-- The names of the parameters. -/
def Param.names (params : List Param) : List String :=
  params.map (·.name.text)

mutual

/-- An expression in brackets. -/
def Expr.render : Expr → String
  | .literal value => value.render
  | .variable ref => ref.name.text
  | .selfRef _ => "self"
  | .superRef _ => "super"
  | .grouping inner => bracket "group" [inner.render]
  | .unary op _ operand => bracket op.symbol.text [operand.render]
  | .binary left op _ right => bracket op.symbol.text [left.render, right.render]
  | .logical left op right => bracket op.symbol.text [left.render, right.render]
  | .ternary condition yes no => bracket "ternary" [condition.render, yes.render, no.render]
  | .assign target op _ value =>
    bracket "assign" (target.name.text ::
      (if op.isCompound then [op.symbol.text, value.render] else [value.render]))
  | .array items => bracket "array" (Expr.renderList items)
  | .index object place => bracket "arrayGet" [object.render, place.render]
  | .setIndex object place _ _ value => bracket "arraySet" [object.render, place.render, value.render]
  | .get object name => bracket "get" [name.text, object.render]
  | .set object name op _ value =>
    bracket "set" [name.text, op.symbol.text, object.render, value.render]
  | .call callee args => bracket ("call." ++ callee.render) (Expr.renderList args)
  | .block returns params body =>
    bracket "blockExpr" ((returns.map (·.render)).toList ++ Param.names params ++ Stmt.renderList body)

/-- Each expression of a list. -/
def Expr.renderList : List Expr → List String
  | [] => []
  | e :: rest => e.render :: Expr.renderList rest

/-- An expression that may be absent. -/
def Expr.renderOption : Option Expr → List String
  | none => []
  | some e => [e.render]

/-- The declaration of a variable in brackets. -/
def VarDecl.render : VarDecl → String
  | ⟨type, name, init⟩ => bracket "varStmt" (type.render :: name.text :: Expr.renderOption init)

/-- Each declaration of a list. -/
def VarDecl.renderList : List VarDecl → List String
  | [] => []
  | d :: rest => d.render :: VarDecl.renderList rest

/-- The declaration of a function in brackets. -/
def FunctionDecl.render : FunctionDecl → String
  | ⟨name, params, body, _⟩ =>
    bracket ("function." ++ name.text) (Param.names params ++ Stmt.renderList body)

/-- Each declaration of a list. -/
def FunctionDecl.renderList : List FunctionDecl → List String
  | [] => []
  | d :: rest => d.render :: FunctionDecl.renderList rest

/-- A statement in brackets. -/
def Stmt.render : Stmt → String
  | .block body => bracket "block" (Stmt.renderList body)
  | .branch condition yes no =>
    bracket "if" (condition.render :: yes.render :: Stmt.renderOption no)
  | .loop condition body => bracket "while" [condition.render, body.render]
  | .count init condition step body =>
    bracket "for" (Stmt.renderOption init ++ Expr.renderOption condition ++ Expr.renderOption step ++
      [body.render])
  | .result value => bracket "return" (Expr.renderOption value)
  | .expr e => e.render
  | .var decl => decl.render
  | .function decl => decl.render
  | .print value => bracket "print" [value.render]
  | .classDef name _ methods properties =>
    bracket ("define " ++ name.text)
      (FunctionDecl.renderList methods ++ VarDecl.renderList properties)
  | .classImpl name methods => bracket ("implement " ++ name.text) (FunctionDecl.renderList methods)
  | .typeDef name type => bracket "typedef" [name.text, type.render]

/-- Each statement of a list. -/
def Stmt.renderList : List Stmt → List String
  | [] => []
  | s :: rest => s.render :: Stmt.renderList rest

/-- A statement that may be absent. -/
def Stmt.renderOption : Option Stmt → List String
  | none => []
  | some s => [s.render]

end

/-- The statements one on each line. -/
def renderLines (stmts : List Stmt) : String :=
  "\n".intercalate (Stmt.renderList stmts)

/-- The statements one after the other. -/
def renderProgram (stmts : List Stmt) : String :=
  String.join (Stmt.renderList stmts)

end ObjScript
