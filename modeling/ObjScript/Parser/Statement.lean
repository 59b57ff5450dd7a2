import ObjScript.Parser.Expression

/-!
# Statements

Where a statement begins a type is tried first: if there is one, the statement is a declaration.
-/

namespace ObjScript.Parse

/-- The rest of a variable declaration after its name. -/
def varDeclaration (g : Grammar) (name : Name) (type : TypeExpr) : Parse VarDecl := do
  let init ← if ← accept (.symbol .assign) then some <$> g.expression else pure none
  let _ ← expect (.symbol .semi)
  return ⟨type, name, init⟩

/-- The rest of a function declaration after its opening bracket.  It may go without a body. -/
def functionDeclaration (g : Grammar) (name : Name) : Parse FunctionDecl := do
  let params ← paramList g
  let _ ← expect (.symbol .rpar)
  if ← accept (.symbol .semi) then
    return ⟨name, params, [], false⟩
  else
    let _ ← expect (.symbol .lbrace)
    return ⟨name, params, ← blockStatements g, false⟩

/-- The name that is declared after a type.  A block type holds it. -/
def declaredName : TypeExpr → Parse Name
  | .block _ (some name) _ => return name
  | .block _ none _ => return (← expectOr [.ident] fun _ => .unnamedBlockType).toName
  | _ => return (← expect .ident).toName

/-- A declaration after its type. -/
def declaration (g : Grammar) (type : TypeExpr) : Parse Stmt := do
  let name ← declaredName type
  if ← accept (.symbol .lpar) then
    return .function (← functionDeclaration g name)
  else
    return .var (← varDeclaration g name type)

/-- An expression as a statement; a semicolon may follow. -/
def expressionStatement (g : Grammar) : Parse Stmt := do
  let e ← expression g
  let _ ← accept (.symbol .semi)
  return .expr e

/-- The statements after an opening brace; a semicolon may follow the closing one. -/
def block (g : Grammar) : Parse Stmt := do
  let body ← blockStatements g
  let _ ← accept (.symbol .semi)
  return .block body

/-- The body of a branch or of a loop: a block or one statement. -/
def body (g : Grammar) : Parse Stmt := do
  if ← accept (.symbol .lbrace) then block g else g.statement

/-- A condition in brackets. -/
def condition (g : Grammar) : Parse Expr := do
  let _ ← expect (.symbol .lpar)
  let e ← g.expression
  let _ ← expect (.symbol .rpar)
  return e

/-- A branch after `if`. -/
def ifStatement (g : Grammar) : Parse Stmt := do
  let c ← condition g
  let yes ← body g
  let no ← if ← accept (.keyword .elseWord) then some <$> body g else pure none
  return .branch c yes no

/-- A loop after `while`. -/
def whileStatement (g : Grammar) : Parse Stmt := do
  let c ← condition g
  return .loop c (← body g)

/-- The start of a counting loop: nothing, a declaration or an expression. -/
def forInit (g : Grammar) : Parse (Option Stmt) := do
  if ← accept (.symbol .semi) then
    return none
  else
    match ← g.type? with
    | some type => return some (← declaration g type)
    | none => return some (← expressionStatement g)

/-- The condition of a counting loop with its semicolon. -/
def forCondition (g : Grammar) : Parse (Option Expr) := do
  if ← accept (.symbol .semi) then
    return none
  else
    let e ← g.expression
    let _ ← expect (.symbol .semi)
    return some e

/-- A counting loop after `for`. -/
def forStatement (g : Grammar) : Parse Stmt := do
  let _ ← expect (.symbol .lpar)
  let init ← forInit g
  let c ← forCondition g
  let step ← if ← check (.symbol .rpar) then pure none else some <$> g.expression
  let _ ← expect (.symbol .rpar)
  return .count init c step (← body g)

/-- The result of a function after `return`. -/
def returnStatement (g : Grammar) : Parse Stmt := do
  let value ← if ← check (.symbol .semi) then pure none else some <$> g.expression
  let _ ← expect (.symbol .semi)
  return .result value

/-- Output after `print`. -/
def printStatement (g : Grammar) : Parse Stmt := do
  let value ← g.expression
  let _ ← expect (.symbol .semi)
  return .print value

/-- A new name for a type after `typedef`.  The name opens a type from here on. -/
def typedefStatement (g : Grammar) : Parse Stmt := do
  match ← g.type? with
  | none =>
    fail .expectedTypedefType
    return .typeDef (← expect .ident).toName .missing
  | some type =>
    let name ← match type.blockName? with
      | some name => pure name
      | none => do pure (← expect .ident).toName
    let _ ← expect (.symbol .semi)
    modify fun c => { c with typedefs := c.typedefs.add name.text }
    return .typeDef name type

/-- A type and a name as in the head of a method: `(type) name`. -/
def selectorPart (g : Grammar) : Parse Param := do
  let _ ← expect (.symbol .lpar)
  let type ← match ← g.type? with
    | some type => pure type
    | none => do
      fail .expectedType
      pure .missing
  let _ ← expect (.symbol .rpar)
  return ⟨type, (← expect .ident).toName⟩

/-- Another keyword of a method's head with its parameter. -/
def selectorSuffix? (g : Grammar) : Parse (Option Param) := do
  if ← accept .ident then
    let _ ← expect (.symbol .colon)
    return some (← selectorPart g)
  else
    return none

/-- A method after its sign: the head and a semicolon or a body.  A plus makes it static. -/
def method (g : Grammar) (isStatic : Bool) : Parse FunctionDecl := do
  let head ← selectorPart g
  let params ← if ← accept (.symbol .colon) then do
      let first ← selectorPart g
      pure (first :: (← repeated (selectorSuffix? g)))
    else pure []
  let body ← if ← accept (.symbol .lbrace) then blockStatements g else do
    let _ ← expect (.symbol .semi)
    pure []
  return ⟨head.name, params, body, isStatic⟩

/-- The sign before a method: whether it makes the method static. -/
def methodSign? : Parse (Option Bool) := do
  let t ← accept? fun kind => kind = .symbol .minus || kind = .symbol .plus
  return t.map (·.is (.symbol .plus))

/-- Attributes of a property in brackets; they have no meaning. -/
def propertyAttributes : Parse Unit := do
  if ← accept (.symbol .lpar) then
    let _ ← commaSeparated (accept? fun kind => kind = .ident || kind = .keyword .weak)
    let _ ← expect (.symbol .rpar)

/-- A property after `property`. -/
def property (g : Grammar) : Parse VarDecl := do
  propertyAttributes
  let type ← match ← g.type? with
    | some type => pure type
    | none => do
      fail .expectedPropertyType
      pure .missing
  let _ ← accept (.symbol .star)
  let name ← expectOr [.ident, .classIdent] (.expected [.ident, .classIdent])
  varDeclaration g name.toName type

/-- The section of a class goes on. -/
def inSection : Parse Bool := do
  return !((← check (.keyword .endWord)) || (← atEnd) || (← hadError))

/-- A turn of the loop over an interface: a method, a property, or neither of them. -/
def interfaceMember? (g : Grammar) : Parse (Option (Option (FunctionDecl ⊕ VarDecl))) := do
  if ← inSection then
    match ← methodSign? with
    | some isStatic => return some (some (.inl (← method g isStatic)))
    | none =>
      if ← accept (.keyword .property) then
        return some (some (.inr (← property g)))
      else
        fail .notInInterface
        return some none
  else
    return none

/-- A class after `interface`. -/
def classDeclaration (g : Grammar) : Parse Stmt := do
  let name ← expect .classIdent
  let superclass ← if ← accept (.symbol .colon) then do
      pure (some (reference (← expect .classIdent)))
    else pure none
  let members := (← repeated (interfaceMember? g)).filterMap id
  let _ ← expect (.keyword .endWord)
  return .classDef name.toName superclass (members.filterMap Sum.getLeft?)
    (members.filterMap Sum.getRight?)

/-- A turn of the loop over an implementation: a method or no method. -/
def implementationMember? (g : Grammar) : Parse (Option (Option FunctionDecl)) := do
  if ← inSection then
    match ← methodSign? with
    | some isStatic => return some (some (← method g isStatic))
    | none =>
      fail .notInImplementation
      return some none
  else
    return none

/-- The name of a category in brackets; it has no meaning. -/
def category : Parse Unit := do
  if ← accept (.symbol .lpar) then
    let _ ← accept .ident
    let _ ← accept .classIdent
    let _ ← expect (.symbol .rpar)

/-- The methods of a class after `implementation`. -/
def classImplementation (g : Grammar) : Parse Stmt := do
  let name ← expect .classIdent
  category
  let methods := (← repeated (implementationMember? g)).filterMap id
  let _ ← expect (.keyword .endWord)
  return .classImpl name.toName methods

/-- A statement that is no declaration. -/
def statement (g : Grammar) : Parse Stmt := do
  match (← current).kind with
  | .symbol .lbrace =>
    let _ ← advance
    block g
  | .keyword .ifWord =>
    let _ ← advance
    ifStatement g
  | .keyword .returnWord =>
    let _ ← advance
    returnStatement g
  | .keyword .whileWord =>
    let _ ← advance
    whileStatement g
  | .keyword .forWord =>
    let _ ← advance
    forStatement g
  | .keyword .printWord =>
    let _ ← advance
    printStatement g
  | .keyword .interface =>
    let _ ← advance
    classDeclaration g
  | .keyword .implementation =>
    let _ ← advance
    classImplementation g
  | .keyword .typedefWord =>
    let _ ← advance
    typedefStatement g
  | _ => expressionStatement g

/-- Any statement. -/
def start (g : Grammar) : Parse Stmt := do
  match ← type? g with
  | some type => declaration g type
  | none => statement g

end ObjScript.Parse
