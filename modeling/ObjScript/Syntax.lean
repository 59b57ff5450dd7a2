import ObjScript.Token

/-!
# Syntax trees

Expressions and statements as the parser builds them.  A reference to a variable, to `self` or to `super`
carries the number of scopes between it and the declaration of its name; the parser leaves it open and
the analysis of scopes fills it in.
-/

namespace ObjScript

/-- A name and where it stands. -/
structure Name where
  text : String
  pos : Pos
deriving DecidableEq, Repr

/-- The name that a token spells. -/
def Token.toName (t : Token) : Name :=
  ⟨t.text, t.pos⟩

/-- A reference to a name.  The depth is the number of scopes to go outward, where it is known. -/
structure Ref where
  name : Name
  depth : Option Nat
deriving DecidableEq, Repr

/-- Operators on two values. -/
inductive BinaryOp where
  | eq | neq | lt | gt | gte | lte | plus | minus | slash | star | mod
deriving DecidableEq, Repr

/-- The symbol of the operator. -/
def BinaryOp.symbol : BinaryOp → Symbol
  | eq => .eq | neq => .neq | lt => .lt | gt => .gt | gte => .gte | lte => .lte | plus => .plus
  | minus => .minus | slash => .slash | star => .star | mod => .mod

/-- Operators on two truth values; the second is only looked at if need be. -/
inductive LogicOp where
  | or | and
deriving DecidableEq, Repr

/-- The symbol of the operator. -/
def LogicOp.symbol : LogicOp → Symbol
  | or => .or | and => .and

/-- Operators on one value. -/
inductive UnaryOp where
  | not | negate
deriving DecidableEq, Repr

/-- The symbol of the operator. -/
def UnaryOp.symbol : UnaryOp → Symbol
  | not => .bang | negate => .minus

/-- The ways of assigning: `=`, `+=` and `++`. -/
inductive AssignOp where
  | set | add | increment
deriving DecidableEq, Repr

/-- The symbol of the assignment. -/
def AssignOp.symbol : AssignOp → Symbol
  | set => .assign | add => .plusEq | increment => .incr

/-- The new value is added to the old one. -/
def AssignOp.isCompound : AssignOp → Bool
  | set => false
  | add | increment => true

/-- Values that are written out in the source. -/
inductive Literal where
  | nil
  | bool (b : Bool)
  | number (x : Float)
  | string (s : String)

/-- A type in a declaration: a type name, or a block type with its return type, its name and the types of
its parameters.  A type that could not be read is missing. -/
inductive TypeExpr where
  | missing
  | named (token : Token)
  | block (returns : TypeExpr) (name : Option Name) (params : List TypeExpr)

/-- The name inside a block type. -/
def TypeExpr.blockName? : TypeExpr → Option Name
  | block _ name _ => name
  | _ => none

/-- A parameter of a function, a method or a block. -/
structure Param where
  type : TypeExpr
  name : Name

mutual

/-- Expressions. -/
inductive Expr where
  | literal (value : Literal)
  | variable (ref : Ref)
  | selfRef (ref : Ref)
  | superRef (ref : Ref)
  | grouping (inner : Expr)
  | unary (op : UnaryOp) (pos : Pos) (operand : Expr)
  | binary (left : Expr) (op : BinaryOp) (pos : Pos) (right : Expr)
  | logical (left : Expr) (op : LogicOp) (right : Expr)
  | ternary (condition : Expr) (yes : Expr) (no : Expr)
  | assign (target : Ref) (op : AssignOp) (pos : Pos) (value : Expr)
  | array (items : List Expr)
  | index (object : Expr) (place : Expr)
  | setIndex (object : Expr) (place : Expr) (op : AssignOp) (pos : Pos) (value : Expr)
  | get (object : Expr) (name : Name)
  | set (object : Expr) (name : Name) (op : AssignOp) (pos : Pos) (value : Expr)
  | call (callee : Expr) (args : List Expr)
  | block (returns : Option TypeExpr) (params : List Param) (body : List Stmt)

/-- The declaration of a variable or of a property. -/
structure VarDecl where
  type : TypeExpr
  name : Name
  init : Option Expr

/-- The declaration of a function or of a method. -/
structure FunctionDecl where
  name : Name
  params : List Param
  body : List Stmt
  isStatic : Bool

/-- Statements. -/
inductive Stmt where
  | block (body : List Stmt)
  | branch (condition : Expr) (yes : Stmt) (no : Option Stmt)
  | loop (condition : Expr) (body : Stmt)
  | count (init : Option Stmt) (condition : Option Expr) (step : Option Expr) (body : Stmt)
  | result (value : Option Expr)
  | expr (e : Expr)
  | var (decl : VarDecl)
  | function (decl : FunctionDecl)
  | print (value : Expr)
  | classDef (name : Name) (superclass : Option Ref) (methods : List FunctionDecl)
      (properties : List VarDecl)
  | classImpl (name : Name) (methods : List FunctionDecl)
  | typeDef (name : Name) (type : TypeExpr)

end

/-- What a scope is opened for. -/
inductive Opener where
  /-- The built-in names, for which the analysis has no scope. -/
  | builtins
  | program
  | block (body : List Stmt)
  /-- The body of a function, of a method or of a block literal. -/
  | body (params : List Param) (body : List Stmt)
  /-- An implementation, as it is seen by one of its methods. -/
  | members (method : FunctionDecl)

end ObjScript
