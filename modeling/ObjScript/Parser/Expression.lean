import ObjScript.Parser.Type

/-!
# Expressions

From the loosest to the tightest: ternary, assignment (to the right), `++`, `||`, `&&`, equality,
comparison, sum, product (all to the left), index, the operators on one value, block literals, calls and
members, message sends, and at last literals, names and brackets.
-/

namespace ObjScript.Parse

/-- Expressions with commas between them, up to a closing token. -/
def arguments (g : Grammar) (closing : Symbol) : Parse (List Expr) := do
  let args ← if ← check (.symbol closing) then pure [] else commaSeparated g.expression
  let _ ← expect (.symbol closing)
  return args

/-- A reference whose scope is still open. -/
def reference (t : Token) : Ref :=
  ⟨t.toName, none⟩

/-- Literals, names and brackets. -/
def primary (g : Grammar) : Parse Expr := do
  let t ← current
  match t.kind with
  | .number =>
    let _ ← advance
    match Number.read? t.text with
    | some x => return .literal (.number x)
    | none => throw ⟨t.text⟩
  | .string =>
    let _ ← advance
    return .literal (.string t.text)
  | .symbol .lpar =>
    let _ ← advance
    let inner ← g.expression
    let _ ← expect (.symbol .rpar)
    return .grouping inner
  | .symbol .arrayStart =>
    let _ ← advance
    return .array (← arguments g .rsqb)
  | .keyword .yes =>
    let _ ← advance
    return .literal (.bool true)
  | .keyword .no =>
    let _ ← advance
    return .literal (.bool false)
  | .keyword .nil =>
    let _ ← advance
    return .literal .nil
  | .classIdent | .ident =>
    let _ ← advance
    return .variable (reference t)
  | .keyword .selfWord =>
    let _ ← advance
    return .selfRef (reference t)
  | .keyword .superWord =>
    let _ ← advance
    return .superRef (reference t)
  | kind =>
    fail (.expectedExpression kind)
    return .literal .nil

/-- An argument of a message after the first one.  Its keyword is read and forgotten. -/
def messageArgument? (g : Grammar) : Parse (Option Expr) := do
  if (← check (.symbol .rsqb)) || (← atEnd) || (← hadError) then
    return none
  else
    let _ ← expect .ident
    let _ ← expect (.symbol .colon)
    return some (← g.expression)

/-- A message `[receiver selector: a key: b]` means `receiver.selector(a, b)`. -/
def messageSend (g : Grammar) : Parse Expr := do
  if ← accept (.symbol .lsqb) then
    let receiver ← g.factor
    let selector ← expect .ident
    let args ← if ← accept (.symbol .colon) then do
        let first ← g.expression
        pure (first :: (← repeated (messageArgument? g)))
      else pure []
    let _ ← expect (.symbol .rsqb)
    return .call (.get receiver selector.toName) args
  else
    primary g

/-- A call or a member after an expression. -/
def callSuffix? (g : Grammar) (e : Expr) : Parse (Option Expr) := do
  if ← accept (.symbol .lpar) then
    return some (.call e (← arguments g .rpar))
  else if ← accept (.symbol .dot) then
    return some (.get e (← expect .ident).toName)
  else
    return none

/-- Calls and members. -/
def call (g : Grammar) : Parse Expr := do
  extend (← messageSend g) (callSuffix? g)

/-- A parameter; `void` alone is none. -/
def param? (g : Grammar) : Parse (Option Param) := do
  match ← g.type? with
  | none => return none
  | some type =>
    match type.blockName? with
    | some name => return some ⟨type, name⟩
    | none =>
      match ← accept? (· = .ident), type with
      | some name, _ => return some ⟨type, name.toName⟩
      | none, .named ⟨.keyword .voidType, _, _⟩ => return none
      | none, _ => return some ⟨type, (← expect .ident).toName⟩

/-- Parameters with commas between them, up to the closing bracket, which is not read. -/
def paramList (g : Grammar) : Parse (List Param) := do
  if ← check (.symbol .rpar) then
    return []
  else
    return (← commaSeparated (param? g)).filterMap id

/-- A statement before the closing brace. -/
def blockStatement? (g : Grammar) : Parse (Option Stmt) := do
  if (← check (.symbol .rbrace)) || (← atEnd) || (← hadError) then
    return none
  else
    return some (← g.start)

/-- The statements after an opening brace, and the closing one. -/
def blockStatements (g : Grammar) : Parse (List Stmt) := do
  let body ← repeated (blockStatement? g)
  let _ ← expect (.symbol .rbrace)
  return body

/-- A block literal `^type(params) body`. -/
def blockLiteral (g : Grammar) : Parse Expr := do
  if ← accept (.symbol .caret) then
    let returns ← g.type?
    let params ← if ← accept (.symbol .lpar) then do
        let params ← paramList g
        let _ ← expect (.symbol .rpar)
        pure params
      else pure []
    let _ ← expect (.symbol .lbrace)
    return .block returns params (← blockStatements g)
  else
    call g

/-- The operator on one value that a token stands for. -/
def unaryOp? : Kind → Option UnaryOp
  | .symbol .bang => some .not
  | .symbol .minus => some .negate
  | _ => none

/-- The operators on one value. -/
def unary (g : Grammar) : Parse Expr := do
  let t ← current
  match unaryOp? t.kind with
  | some op =>
    let _ ← advance
    return .unary op t.pos (← g.unary)
  | none => blockLiteral g

/-- An index after an expression. -/
def indexSuffix? (g : Grammar) (e : Expr) : Parse (Option Expr) := do
  if ← accept (.symbol .lsqb) then
    let place ← g.expression
    let _ ← expect (.symbol .rsqb)
    return some (.index e place)
  else
    return none

/-- Indices, from left to right. -/
def index (g : Grammar) : Parse Expr := do
  extend (← unary g) (indexSuffix? g)

/-- An operator of the level and its right operand. -/
def binarySuffix? (operand : Parse Expr) (op? : Kind → Option BinaryOp) (e : Expr) :
    Parse (Option Expr) := do
  let t ← current
  match op? t.kind with
  | some op =>
    let _ ← advance
    return some (.binary e op t.pos (← operand))
  | none => return none

/-- Operators of one level, from left to right. -/
def binaryLevel (operand : Parse Expr) (op? : Kind → Option BinaryOp) : Parse Expr := do
  extend (← operand) (binarySuffix? operand op?)

/-- Product operators. -/
def productOp? : Kind → Option BinaryOp
  | .symbol .slash => some .slash
  | .symbol .star => some .star
  | .symbol .mod => some .mod
  | _ => none

/-- Sum operators. -/
def sumOp? : Kind → Option BinaryOp
  | .symbol .plus => some .plus
  | .symbol .minus => some .minus
  | _ => none

/-- Comparison operators. -/
def comparisonOp? : Kind → Option BinaryOp
  | .symbol .lt => some .lt
  | .symbol .gt => some .gt
  | .symbol .gte => some .gte
  | .symbol .lte => some .lte
  | _ => none

/-- Equality operators. -/
def equalityOp? : Kind → Option BinaryOp
  | .symbol .eq => some .eq
  | .symbol .neq => some .neq
  | _ => none

/-- Products. -/
def factor (g : Grammar) : Parse Expr :=
  binaryLevel (index g) productOp?

/-- Sums. -/
def term (g : Grammar) : Parse Expr :=
  binaryLevel (factor g) sumOp?

/-- Comparisons. -/
def comparison (g : Grammar) : Parse Expr :=
  binaryLevel (term g) comparisonOp?

/-- Equalities. -/
def equality (g : Grammar) : Parse Expr :=
  binaryLevel (comparison g) equalityOp?

/-- A logical operator and its right operand. -/
def logicalSuffix? (operand : Parse Expr) (op : LogicOp) (e : Expr) : Parse (Option Expr) := do
  if ← accept (.symbol op.symbol) then
    return some (.logical e op (← operand))
  else
    return none

/-- A logical operator, from left to right. -/
def logicalLevel (operand : Parse Expr) (op : LogicOp) : Parse Expr := do
  extend (← operand) (logicalSuffix? operand op)

/-- Conjunctions. -/
def conjunction (g : Grammar) : Parse Expr :=
  logicalLevel (equality g) .and

/-- Disjunctions. -/
def disjunction (g : Grammar) : Parse Expr :=
  logicalLevel (conjunction g) .or

/-- An assignment to what has been read as an expression: a variable, a member or an element. -/
def assignTo (target : Expr) (op : AssignOp) (pos : Pos) (value : Expr) (fault : SyntaxFault) :
    Parse Expr := do
  match target with
  | .variable ref => return .assign ref op pos value
  | .get object name => return .set object name op pos value
  | .index object place => return .setIndex object place op pos value
  | _ =>
    fail fault
    return .literal (.string "ERROR")

/-- An increment `x++` adds the literal 1. -/
def increment (g : Grammar) : Parse Expr := do
  let target ← disjunction g
  let t ← current
  if ← accept (.symbol .incr) then
    assignTo target .increment t.pos (.literal (.number 1)) .invalidIncrement
  else
    return target

/-- The assignment that a token stands for. -/
def assignOp? : Kind → Option AssignOp
  | .symbol .assign => some .set
  | .symbol .plusEq => some .add
  | _ => none

/-- Assignments, from right to left. -/
def assignment (g : Grammar) : Parse Expr := do
  let target ← increment g
  let t ← current
  match assignOp? t.kind with
  | some op =>
    let _ ← advance
    assignTo target op t.pos (← g.assignment) .invalidAssignment
  | none => return target

/-- Any expression. -/
def expression (g : Grammar) : Parse Expr := do
  let condition ← assignment g
  if ← accept (.symbol .qmark) then
    let yes ← g.expression
    let _ ← expect (.symbol .colon)
    let no ← g.expression
    return .ternary condition yes no
  else
    return condition

end ObjScript.Parse
