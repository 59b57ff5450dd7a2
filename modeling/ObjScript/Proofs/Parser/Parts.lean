import ObjScript.Parser.Program

/-!
# The rules of the grammar in parts

A part of a rule that may be absent, such as the initial value of a declaration, has a name here, and the rule is its
parts in a row.  What holds of the steps of a rule is then shown for each part once, and not again for every way in
which the rule may go on after it.
-/

namespace ObjScript.Parse

variable {α β : Type}

/-- What comes after a choice comes after both of its ways. -/
private theorem choice_bind (b : Bool) (t e : Parse α) (k : α → Parse β) :
    ((if b = true then t else e) >>= k) = if b = true then t >>= k else e >>= k := by
  cases b <;> rfl

variable (g : Grammar)

/-! ### Types -/

/-- The block that is read next: a new one inside the others, or the innermost one that is open. -/
def innermostBlock (blocks : BlockHeads) : Parse BlockHeads := do
  if ← opensBlockType then
    let _ ← advance
    let _ ← advance
    pure blocks.opened
  else
    pure blocks

/-- The name and the parameters that close the innermost block. -/
def closedBlock (blocks : BlockHeads) : Parse (Option BlockHeads) := do
  let name ← accept? (· = .ident)
  if ← accept (.symbol .rpar) then
    let _ ← expect (.symbol .lpar)
    let params ← typeList g
    let _ ← expect (.symbol .rpar)
    return some (blocks.closed ⟨name.map Token.toName, params⟩)
  else
    fail .malformedBlockType
    return some blocks.abandoned

theorem blockHead?_eq (blocks : BlockHeads) :
    blockHead? g blocks = (do
      if blocks.pending.isEmpty || (← hadError) then
        return none
      else
        closedBlock g (← innermostBlock blocks)) := by
  simp only [blockHead?, innermostBlock, closedBlock, choice_bind, bind_assoc, pure_bind]

/-- A type that has to be there. -/
def neededType (fault : SyntaxFault) : Parse TypeExpr := do
  match ← g.type? with
  | some type => pure type
  | none => do
    fail fault
    pure .missing

/-! ### Expressions -/

/-- The items of a list that ends with a closing token. -/
def listBefore (closing : Symbol) : Parse (List Expr) := do
  if ← check (.symbol closing) then pure [] else commaSeparated g.expression

theorem arguments_eq (closing : Symbol) :
    arguments g closing = (do
      let args ← listBefore g closing
      let _ ← expect (.symbol closing)
      return args) := by
  simp only [arguments, listBefore, choice_bind, bind_assoc, pure_bind]

/-- The arguments of a message. -/
def messageArguments : Parse (List Expr) := do
  if ← accept (.symbol .colon) then
    let first ← g.expression
    pure (first :: (← repeated (messageArgument? g)))
  else
    pure []

theorem messageSend_eq :
    messageSend g = (do
      if ← accept (.symbol .lsqb) then
        let receiver ← g.factor
        let selector ← expect .ident
        let args ← messageArguments g
        let _ ← expect (.symbol .rsqb)
        return .call (.get receiver selector.toName) args
      else
        primary g) := by
  simp only [messageSend, messageArguments, choice_bind, bind_assoc, pure_bind]

/-- The parameters of a block literal. -/
def blockParams : Parse (List Param) := do
  if ← accept (.symbol .lpar) then
    let params ← paramList g
    let _ ← expect (.symbol .rpar)
    pure params
  else
    pure []

theorem blockLiteral_eq :
    blockLiteral g = (do
      if ← accept (.symbol .caret) then
        let returns ← g.type?
        let params ← blockParams g
        let _ ← expect (.symbol .lbrace)
        return .block returns params (← blockStatements g)
      else
        call g) := by
  simp only [blockLiteral, blockParams, choice_bind, bind_assoc, pure_bind]

/-! ### Statements -/

/-- The initial value of a variable. -/
def initialValue : Parse (Option Expr) := do
  if ← accept (.symbol .assign) then some <$> g.expression else pure none

theorem varDeclaration_eq (name : Name) (type : TypeExpr) :
    varDeclaration g name type = (do
      let init ← initialValue g
      let _ ← expect (.symbol .semi)
      return ⟨type, name, init⟩) := by
  simp only [varDeclaration, initialValue, choice_bind, bind_assoc, pure_bind]

/-- The other way of a branch. -/
def elseBranch : Parse (Option Stmt) := do
  if ← accept (.keyword .elseWord) then some <$> body g else pure none

theorem ifStatement_eq :
    ifStatement g = (do
      let c ← condition g
      let yes ← body g
      let no ← elseBranch g
      return .branch c yes no) := by
  simp only [ifStatement, elseBranch, choice_bind, bind_assoc, pure_bind]

/-- An expression, unless what comes after it is already there. -/
def expressionBefore (closing : Symbol) : Parse (Option Expr) := do
  if ← check (.symbol closing) then pure none else some <$> g.expression

theorem forStatement_eq :
    forStatement g = (do
      let _ ← expect (.symbol .lpar)
      let init ← forInit g
      let c ← forCondition g
      let step ← expressionBefore g .rpar
      let _ ← expect (.symbol .rpar)
      return .count init c step (← body g)) := by
  simp only [forStatement, expressionBefore, choice_bind, bind_assoc, pure_bind]

theorem returnStatement_eq :
    returnStatement g = (do
      let value ← expressionBefore g .semi
      let _ ← expect (.symbol .semi)
      return .result value) := by
  simp only [returnStatement, expressionBefore, choice_bind, bind_assoc, pure_bind]

/-- The name that is given to a type.  A block type holds it. -/
def typedefName (type : TypeExpr) : Parse Name :=
  match type.blockName? with
  | some name => pure name
  | none => do pure (← expect .ident).toName

/-- The rest of a typedef after its type. -/
def typedefRest (type : TypeExpr) : Parse Stmt := do
  let name ← typedefName type
  let _ ← expect (.symbol .semi)
  modify fun c => { c with typedefs := c.typedefs.add name.text }
  return .typeDef name type

theorem typedefStatement_eq :
    typedefStatement g = (do
      match ← g.type? with
      | none =>
        fail .expectedTypedefType
        return .typeDef (← expect .ident).toName .missing
      | some type => typedefRest type) := by
  unfold typedefStatement
  refine bind_congr fun o => ?_
  cases o with
  | none => rfl
  | some type =>
    unfold typedefRest typedefName
    dsimp only
    cases type.blockName? <;> simp only [bind_assoc, pure_bind]

theorem selectorPart_eq :
    selectorPart g = (do
      let _ ← expect (.symbol .lpar)
      let type ← neededType g .expectedType
      let _ ← expect (.symbol .rpar)
      return ⟨type, (← expect .ident).toName⟩) := by
  unfold selectorPart neededType
  refine bind_congr fun _ => ?_
  rw [bind_assoc]
  refine bind_congr fun o => ?_
  cases o <;> rfl

/-- The parameters of a method. -/
def methodParams : Parse (List Param) := do
  if ← accept (.symbol .colon) then
    let first ← selectorPart g
    pure (first :: (← repeated (selectorSuffix? g)))
  else
    pure []

/-- The body of a method, or a semicolon in its place. -/
def methodBody : Parse (List Stmt) := do
  if ← accept (.symbol .lbrace) then
    blockStatements g
  else
    let _ ← expect (.symbol .semi)
    pure []

theorem method_eq (isStatic : Bool) :
    method g isStatic = (do
      let head ← selectorPart g
      let params ← methodParams g
      let body ← methodBody g
      return ⟨head.name, params, body, isStatic⟩) := by
  simp only [method, methodParams, methodBody, choice_bind, bind_assoc, pure_bind]

theorem property_eq :
    property g = (do
      propertyAttributes
      let type ← neededType g .expectedPropertyType
      let _ ← accept (.symbol .star)
      let name ← expectOr [.ident, .classIdent] (.expected [.ident, .classIdent])
      varDeclaration g name.toName type) := by
  unfold property neededType
  refine bind_congr fun _ => ?_
  rw [bind_assoc]
  refine bind_congr fun o => ?_
  cases o <;> rfl

/-- The superclass of a class. -/
def superclassName : Parse (Option Ref) := do
  if ← accept (.symbol .colon) then
    pure (some (reference (← expect .classIdent)))
  else
    pure none

/-- The methods and properties of an interface. -/
def interfaceMembers : Parse (List (FunctionDecl ⊕ VarDecl)) := do
  return (← repeated (interfaceMember? g)).filterMap id

theorem classDeclaration_eq :
    classDeclaration g = (do
      let name ← expect .classIdent
      let superclass ← superclassName
      let members ← interfaceMembers g
      let _ ← expect (.keyword .endWord)
      return .classDef name.toName superclass (members.filterMap Sum.getLeft?)
        (members.filterMap Sum.getRight?)) := by
  simp only [classDeclaration, superclassName, interfaceMembers, choice_bind, bind_assoc, pure_bind]

/-- The methods of an implementation. -/
def implementationMethods : Parse (List FunctionDecl) := do
  return (← repeated (implementationMember? g)).filterMap id

theorem classImplementation_eq :
    classImplementation g = (do
      let name ← expect .classIdent
      category
      let methods ← implementationMethods g
      let _ ← expect (.keyword .endWord)
      return .classImpl name.toName methods) := by
  simp only [classImplementation, implementationMethods, bind_assoc, pure_bind]

end ObjScript.Parse
