import ObjScript.Parser.Cursor
import ObjScript.Syntax

/-!
# The parsers that the grammar's rules call

The rules of the grammar refer to each other in circles.  Each rule is written as a function of the
parsers that it calls after it has read a token; how these are tied together is said in one place, at the
end.
-/

namespace ObjScript

/-- One parser for each part of the grammar that contains itself. -/
structure Grammar where
  type? : Parse (Option TypeExpr)
  expression : Parse Expr
  assignment : Parse Expr
  factor : Parse Expr
  unary : Parse Expr
  start : Parse Stmt
  statement : Parse Stmt

end ObjScript
