import ObjScript.Syntax.Render

/-!
# Trees as outlines

The indented form of a tree.  Each node stands on a line of its own with its parts below it, two spaces
further in; a node whose only part is a word has it on its own line after a tab.
-/

namespace ObjScript

/-- A labelled tree over words. -/
inductive Outline where
  | word (text : String)
  | node (label : String) (parts : List Outline)

/-- Two spaces for each level. -/
def indentation (level : Nat) : String :=
  String.ofList (List.replicate (2 * level) ' ')

mutual

/-- The lines of an outline at a level. -/
def Outline.lines (level : Nat) : Outline → String
  | .word text => indentation level ++ text ++ "\n"
  | .node label [.word text] => indentation level ++ label ++ "\t" ++ text ++ "\n"
  | .node label parts => indentation level ++ label ++ "\n" ++ Outline.linesOfList (level + 1) parts

/-- The lines of several outlines at a level. -/
def Outline.linesOfList (level : Nat) : List Outline → String
  | [] => ""
  | o :: rest => o.lines level ++ Outline.linesOfList level rest

end

/-- The outline from the margin on. -/
def Outline.pretty (o : Outline) : String :=
  o.lines 0

/-- The word of a name. -/
def Name.outline (name : Name) : Outline :=
  .word name.text

/-- The word of a symbol. -/
def Symbol.outline (s : Symbol) : Outline :=
  .word s.text

mutual

/-- The outline of a type. -/
def TypeExpr.outline : TypeExpr → Outline
  | .missing => .node "type_annotation" []
  | .named token => .node "type_annotation" [.word token.text]
  | .block returns name params =>
    .node "type_annotation" [.node "block_signature"
      (returns.outline :: (name.map Name.outline).toList ++ TypeExpr.outlines params)]

/-- The outlines of several types. -/
def TypeExpr.outlines : List TypeExpr → List Outline
  | [] => []
  | t :: rest => t.outline :: TypeExpr.outlines rest

end

/-- The types and names of the parameters. -/
def Param.outlines (params : List Param) : List Outline :=
  params.flatMap fun p => [p.type.outline, p.name.outline]

/-- The outline of a variable. -/
def Ref.outline (label : String) (ref : Ref) : Outline :=
  .node label [ref.name.outline]

mutual

/-- The outline of an expression. -/
def Expr.outline : Expr → Outline
  | .literal value => .node "literal" [.word value.render]
  | .variable ref => ref.outline "variable"
  | .selfRef ref => ref.outline "selfy"
  | .superRef ref => ref.outline "supery"
  | .grouping inner => .node "grouping" [inner.outline]
  | .unary op _ operand => .node "unary" [op.symbol.outline, operand.outline]
  | .binary left op _ right => .node "binary" [left.outline, op.symbol.outline, right.outline]
  | .logical left op right => .node "logical" [left.outline, op.symbol.outline, right.outline]
  | .ternary condition yes no => .node "ternary" [condition.outline, yes.outline, no.outline]
  | .assign target op _ value =>
    .node "assign" [target.name.outline, op.symbol.outline, value.outline]
  | .array items => .node "array" (Expr.outlines items)
  | .index object place => .node "array_get" [object.outline, place.outline]
  | .setIndex object place op _ value =>
    .node "array_set" [object.outline, place.outline, value.outline, op.symbol.outline]
  | .get object name => .node "get" [object.outline, name.outline]
  | .set object name op _ value =>
    .node "set" [object.outline, name.outline, value.outline, op.symbol.outline]
  | .call callee args => .node "call" (callee.outline :: Expr.outlines args)
  | .block returns params body =>
    .node "block_literal"
      ((returns.map (·.outline)).toList ++ Param.outlines params ++ Stmt.outlines body)

/-- The outlines of several expressions. -/
def Expr.outlines : List Expr → List Outline
  | [] => []
  | e :: rest => e.outline :: Expr.outlines rest

/-- The outline of an expression that may be absent. -/
def Expr.outlineOption : Option Expr → List Outline
  | none => []
  | some e => [e.outline]

/-- The outline of the declaration of a variable. -/
def VarDecl.outline : VarDecl → Outline
  | ⟨type, name, init⟩ => .node "var" (type.outline :: name.outline :: Expr.outlineOption init)

/-- The outlines of several declarations. -/
def VarDecl.outlines : List VarDecl → List Outline
  | [] => []
  | d :: rest => d.outline :: VarDecl.outlines rest

/-- The outline of the declaration of a function; a static one is marked by a plus. -/
def FunctionDecl.outline : FunctionDecl → Outline
  | ⟨name, params, body, isStatic⟩ =>
    .node "function" (name.outline :: Param.outlines params ++ Stmt.outlines body ++
      (if isStatic then [.word "+"] else []))

/-- The outlines of several declarations. -/
def FunctionDecl.outlines : List FunctionDecl → List Outline
  | [] => []
  | d :: rest => d.outline :: FunctionDecl.outlines rest

/-- The outline of a statement. -/
def Stmt.outline : Stmt → Outline
  | .block body => .node "block" (Stmt.outlines body)
  | .branch condition yes no =>
    .node "if" (condition.outline :: yes.outline :: Stmt.outlineOption no)
  | .loop condition body => .node "while" [condition.outline, body.outline]
  | .count init condition step body =>
    .node "for" (Stmt.outlineOption init ++ Expr.outlineOption condition ++ Expr.outlineOption step ++
      [body.outline])
  | .result value => .node "return" (Expr.outlineOption value)
  | .expr e => .node "expression" [e.outline]
  | .var decl => decl.outline
  | .function decl => decl.outline
  | .print value => .node "print" [value.outline]
  | .classDef name superclass methods properties =>
    .node "class_def" (name.outline :: (superclass.map (Ref.outline "variable")).toList ++
      FunctionDecl.outlines methods ++ VarDecl.outlines properties)
  | .classImpl name methods => .node "class_impl" (name.outline :: FunctionDecl.outlines methods)
  | .typeDef name type => .node "type_def" [name.outline, type.outline]

/-- The outlines of several statements. -/
def Stmt.outlines : List Stmt → List Outline
  | [] => []
  | s :: rest => s.outline :: Stmt.outlines rest

/-- The outline of a statement that may be absent. -/
def Stmt.outlineOption : Option Stmt → List Outline
  | none => []
  | some s => [s.outline]

end

/-- The outline of a whole program. -/
def outlineProgram (stmts : List Stmt) : Outline :=
  .node "program" (Stmt.outlines stmts)

end ObjScript
