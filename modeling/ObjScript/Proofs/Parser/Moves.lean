import ObjScript.Proofs.Parser.Parts
import ObjScript.Proofs.Parser.Reading

/-!
# What every parser does to a cursor

A `Way` is a relation of cursors that holds along every sequence of single steps: a token is read, an error is
noted, or a bound cuts the parser off.  The parsers of the grammar take no other steps, with one exception: at the end
of a typedef statement a name is added to the type names.  So every parser goes along a way if these statements do
(`grammar_moves`), and the parsers for types always do (`moves_grammar_type?`).
-/

namespace ObjScript

/-- A relation that holds along any sequence of single steps. -/
structure Way where
  rel : Cursor → Cursor → Prop
  refl : ∀ c, rel c c
  trans : ∀ {c₁ c₂ c₃}, rel c₁ c₂ → rel c₂ c₃ → rel c₁ c₃
  advance : ∀ c, rel c c.advance
  fail : ∀ c fault, rel c (c.fail fault)
  cutOff : ∀ c : Cursor, rel c { c with unfinished := true }

namespace Parse

variable {α β : Type} {W : Way}

/-- The parser goes along the way, also where a number stops it. -/
def Moves (W : Way) (p : Parse α) : Prop :=
  ∀ c, W.rel c (p.result c).2

section Sequences

variable {p : Parse α} {f : α → Parse β}

theorem Moves.pure (a : α) : Moves W (Pure.pure a) :=
  fun c => W.refl c

theorem Moves.throw (b : Number.BadNumeral) : Moves W (throw b : Parse α) :=
  fun c => W.refl c

theorem Moves.bind (hp : Moves W p) (hf : ∀ a, Moves W (f a)) : Moves W (p >>= f) := by
  intro c
  have hfirst := hp c
  rw [result_bind]
  split
  · next a c₁ ha =>
    rw [ha] at hfirst
    exact W.trans hfirst (hf a c₁)
  · next b c₁ hb =>
    rw [hb] at hfirst
    exact hfirst

private theorem Moves.map (hp : Moves W p) (f : α → β) : Moves W (f <$> p) := by
  rw [map_eq_pure_bind]
  exact .bind hp fun _ => .pure _

private theorem Moves.choice {b : Bool} {q : Parse α} (hp : Moves W p) (hq : Moves W q) :
    Moves W (if b = true then p else q) := by
  split
  · exact hp
  · exact hq

/-- A parser that looks at the cursor first. -/
theorem Moves.look {F : Cursor → Parse β} (h : ∀ c, Moves W (F c)) : Moves W (get >>= F) := by
  intro c
  rw [result_bind_ok (result_get c)]
  exact h c c

end Sequences

section Tokens

theorem moves_current : Moves W current :=
  fun c => W.refl c

theorem moves_check (kind : Kind) : Moves W (check kind) :=
  fun c => W.refl c

theorem moves_atEnd : Moves W atEnd :=
  fun c => W.refl c

theorem moves_hadError : Moves W hadError :=
  fun c => W.refl c

private theorem moves_turns : Moves W turns :=
  fun c => W.refl c

private theorem moves_cutOff (a : α) : Moves W (cutOff a) :=
  fun c => W.cutOff c

theorem moves_advance : Moves W advance :=
  fun c => W.advance c

theorem moves_fail (fault : SyntaxFault) : Moves W (fail fault) :=
  fun c => W.fail c fault

theorem moves_accept? (ok : Kind → Bool) : Moves W (accept? ok) := by
  refine .bind moves_current fun _ => ?_
  split
  · exact .bind moves_advance fun _ => .pure _
  · exact .pure _

theorem moves_accept (kind : Kind) : Moves W (accept kind) :=
  .bind (moves_accept? _) fun _ => .pure _

theorem moves_expectOr (kinds : List Kind) (fault : Kind → SyntaxFault) : Moves W (expectOr kinds fault) := by
  refine .bind (moves_accept? _) fun _ => ?_
  split
  · exact .pure _
  · exact .bind moves_current fun _ => .bind (moves_fail _) fun _ => .pure _

theorem moves_expect (kind : Kind) : Moves W (expect kind) :=
  moves_expectOr _ _

end Tokens

section Loops

theorem moves_many {item : Parse (Option α)} (h : Moves W item) (turns : List Token) : Moves W (many item turns) := by
  induction turns with
  | nil => exact moves_cutOff _
  | cons t turns ih =>
    unfold many
    refine .bind h fun _ => ?_
    split
    · exact .pure _
    · exact .bind ih fun _ => .pure _

theorem moves_repeated {item : Parse (Option α)} (h : Moves W item) : Moves W (repeated item) :=
  .bind moves_turns fun _ => moves_many h _

private theorem moves_commaSeparated {item : Parse α} (h : Moves W item) : Moves W (commaSeparated item) :=
  .bind h fun _ => .bind (moves_repeated (.bind (moves_accept _) fun _ =>
    .choice (.bind h fun _ => .pure _) (.pure _))) fun _ => .pure _

theorem moves_iterate {step : α → Parse (Option α)} (h : ∀ a, Moves W (step a)) (turns : List Token) :
    ∀ a, Moves W (iterate step turns a) := by
  induction turns with
  | nil => exact moves_cutOff
  | cons t turns ih =>
    intro a
    unfold iterate
    refine .bind (h a) fun _ => ?_
    split
    · exact .pure _
    · exact ih _

theorem moves_extend {step : α → Parse (Option α)} (a : α) (h : ∀ a, Moves W (step a)) : Moves W (extend a step) :=
  .bind moves_turns fun _ => moves_iterate h _ a

end Loops

end Parse

open Parse

/-- All parsers of the grammar go along the way. -/
structure Grammar.Moves (W : Way) (g : Grammar) : Prop where
  type? : Parse.Moves W g.type?
  expression : Parse.Moves W g.expression
  assignment : Parse.Moves W g.assignment
  factor : Parse.Moves W g.factor
  unary : Parse.Moves W g.unary
  start : Parse.Moves W g.start
  statement : Parse.Moves W g.statement

namespace Parse

variable {W : Way} {g : Grammar}

/-! ### Types -/

theorem moves_opensBlockType : Moves W opensBlockType :=
  .look fun _ => .pure _

private theorem moves_typeList (h : Moves W g.type?) : Moves W (typeList g) :=
  .bind (moves_commaSeparated h) fun _ => .pure _

private theorem moves_innermostBlock (blocks : BlockHeads) : Moves W (innermostBlock blocks) :=
  .bind moves_opensBlockType fun _ => .choice (.bind moves_advance fun _ => .bind moves_advance fun _ => .pure _)
    (.pure _)

private theorem moves_closedBlock (h : Moves W g.type?) (blocks : BlockHeads) : Moves W (closedBlock g blocks) := by
  refine .bind (moves_accept? _) fun _ => .bind (moves_accept _) fun _ => .choice ?_ ?_
  · refine .bind (moves_expect _) fun _ => .bind (moves_typeList h) fun _ => ?_
    exact .bind (moves_expect _) fun _ => .pure _
  · exact .bind (moves_fail _) fun _ => .pure _

private theorem moves_blockHead? (h : Moves W g.type?) (blocks : BlockHeads) : Moves W (blockHead? g blocks) := by
  rw [blockHead?_eq]
  refine .bind moves_hadError fun _ => .choice (.pure _) ?_
  exact .bind (moves_innermostBlock blocks) fun _ => moves_closedBlock h _

private theorem moves_neededType (h : Moves W g.type?) (fault : SyntaxFault) : Moves W (neededType g fault) := by
  refine .bind h fun o => ?_
  cases o with
  | some type => exact .pure _
  | none => exact .bind (moves_fail _) fun _ => .pure _

private theorem moves_type? (h : Moves W g.type?) : Moves W (Parse.type? g) := by
  have hname : Moves W typeName? := .look fun _ => moves_accept? _
  have hblock : ∀ base, Moves W (blockType g base) := fun base => by
    refine .bind (moves_expect _) fun _ => .bind (moves_expect _) fun _ => ?_
    exact .bind (moves_extend _ (moves_blockHead? h)) fun _ => .pure _
  refine .bind hname fun _ => ?_
  split
  · exact .pure _
  · refine .bind (moves_accept _) fun _ => .bind moves_opensBlockType fun _ => ?_
    exact .choice (.bind (hblock _) fun _ => .pure _) (.pure _)

/-! ### Expressions -/

private theorem moves_listBefore (hg : g.Moves W) (closing : Symbol) : Moves W (listBefore g closing) :=
  .bind (moves_check _) fun _ => .choice (.pure _) (moves_commaSeparated hg.expression)

theorem moves_arguments (hg : g.Moves W) (closing : Symbol) : Moves W (arguments g closing) := by
  rw [arguments_eq]
  exact .bind (moves_listBefore hg closing) fun _ => .bind (moves_expect _) fun _ => .pure _

theorem moves_primary (hg : g.Moves W) : Moves W (primary g) := by
  refine .bind moves_current fun _ => ?_
  split
  case h_1 =>
    refine .bind moves_advance fun _ => ?_
    split
    · exact .pure _
    · exact .throw _
  case h_3 =>
    exact .bind moves_advance fun _ => .bind hg.expression fun _ => .bind (moves_expect _) fun _ => .pure _
  case h_4 => exact .bind moves_advance fun _ => .bind (moves_arguments hg _) fun _ => .pure _
  case h_12 => exact .bind (moves_fail _) fun _ => .pure _
  all_goals exact .bind moves_advance fun _ => .pure _

private theorem moves_messageArguments (hg : g.Moves W) : Moves W (messageArguments g) := by
  have hargument : Moves W (messageArgument? g) := by
    refine .bind (moves_check _) fun _ => .bind moves_atEnd fun _ => .bind moves_hadError fun _ =>
      .choice (.pure _) ?_
    refine .bind (moves_expect _) fun _ => .bind (moves_expect _) fun _ => ?_
    exact .bind hg.expression fun _ => .pure _
  refine .bind (moves_accept _) fun _ => .choice ?_ (.pure _)
  exact .bind hg.expression fun _ => .bind (moves_repeated hargument) fun _ => .pure _

private theorem moves_messageSend (hg : g.Moves W) : Moves W (messageSend g) := by
  rw [messageSend_eq]
  refine .bind (moves_accept _) fun _ => .choice ?_ (moves_primary hg)
  refine .bind hg.factor fun _ => .bind (moves_expect _) fun _ => .bind (moves_messageArguments hg) fun _ => ?_
  exact .bind (moves_expect _) fun _ => .pure _

theorem moves_call (hg : g.Moves W) : Moves W (call g) := by
  refine .bind (moves_messageSend hg) fun e => moves_extend e fun _ => .bind (moves_accept _) fun _ => ?_
  refine .choice (.bind (moves_arguments hg _) fun _ => .pure _) (.bind (moves_accept _) fun _ => ?_)
  exact .choice (.bind (moves_expect _) fun _ => .pure _) (.pure _)

private theorem moves_paramList (hg : g.Moves W) : Moves W (paramList g) := by
  have hparam : Moves W (param? g) := by
    refine .bind hg.type? fun _ => ?_
    split
    · exact .pure _
    · split
      · exact .pure _
      · refine .bind (moves_accept? _) fun _ => ?_
        split
        · exact .pure _
        · exact .pure _
        · exact .bind (moves_expect _) fun _ => .pure _
  exact .bind (moves_check _) fun _ => .choice (.pure _) (.bind (moves_commaSeparated hparam) fun _ => .pure _)

private theorem moves_blockStatements (hg : g.Moves W) : Moves W (blockStatements g) := by
  refine .bind (moves_repeated ?_) fun _ => .bind (moves_expect _) fun _ => .pure _
  refine .bind (moves_check _) fun _ => .bind moves_atEnd fun _ => .bind moves_hadError fun _ => ?_
  exact .choice (.pure _) (.bind hg.start fun _ => .pure _)

private theorem moves_blockParams (hg : g.Moves W) : Moves W (blockParams g) :=
  .bind (moves_accept _) fun _ => .choice (.bind (moves_paramList hg) fun _ => .bind (moves_expect _) fun _ =>
    .pure _)
    (.pure _)

private theorem moves_blockLiteral (hg : g.Moves W) : Moves W (blockLiteral g) := by
  rw [blockLiteral_eq]
  refine .bind (moves_accept _) fun _ => .choice ?_ (moves_call hg)
  refine .bind hg.type? fun _ => .bind (moves_blockParams hg) fun _ => ?_
  exact .bind (moves_expect _) fun _ => .bind (moves_blockStatements hg) fun _ => .pure _

theorem moves_unary (hg : g.Moves W) : Moves W (unary g) := by
  refine .bind moves_current fun _ => ?_
  split
  · exact .bind moves_advance fun _ => .bind hg.unary fun _ => .pure _
  · exact moves_blockLiteral hg

private theorem moves_index (hg : g.Moves W) : Moves W (index g) := by
  refine .bind (moves_unary hg) fun e => moves_extend e fun _ => .bind (moves_accept _) fun _ => ?_
  exact .choice (.bind hg.expression fun _ => .bind (moves_expect _) fun _ => .pure _) (.pure _)

private theorem moves_binaryLevel {operand : Parse Expr} (h : Moves W operand) (op? : Kind → Option BinaryOp) :
    Moves W (binaryLevel operand op?) := by
  refine .bind h fun e => moves_extend e fun _ => .bind moves_current fun _ => ?_
  split
  · exact .bind moves_advance fun _ => .bind h fun _ => .pure _
  · exact .pure _

private theorem moves_logicalLevel {operand : Parse Expr} (h : Moves W operand) (op : LogicOp) :
    Moves W (logicalLevel operand op) := by
  refine .bind h fun e => moves_extend e fun _ => .bind (moves_accept _) fun _ => ?_
  exact .choice (.bind h fun _ => .pure _) (.pure _)

private theorem moves_factor (hg : g.Moves W) : Moves W (factor g) :=
  moves_binaryLevel (moves_index hg) _

private theorem moves_disjunction (hg : g.Moves W) : Moves W (disjunction g) := by
  have hcomparison : Moves W (comparison g) := moves_binaryLevel (moves_binaryLevel (moves_factor hg) _) _
  exact moves_logicalLevel (moves_logicalLevel (moves_binaryLevel hcomparison _) _) _

theorem moves_assignTo (target value : Expr) (op : AssignOp) (pos : Pos) (fault : SyntaxFault) :
    Moves W (assignTo target op pos value fault) := by
  unfold assignTo
  split
  · exact .pure _
  · exact .pure _
  · exact .pure _
  · exact .bind (moves_fail _) fun _ => .pure _

private theorem moves_assignment (hg : g.Moves W) : Moves W (assignment g) := by
  have hincrement : Moves W (increment g) := by
    refine .bind (moves_disjunction hg) fun _ => .bind moves_current fun _ => .bind (moves_accept _) fun _ => ?_
    exact .choice (moves_assignTo _ _ _ _ _) (.pure _)
  refine .bind hincrement fun _ => .bind moves_current fun _ => ?_
  split
  · exact .bind moves_advance fun _ => .bind hg.assignment fun _ => moves_assignTo _ _ _ _ _
  · exact .pure _

theorem moves_expression (hg : g.Moves W) : Moves W (expression g) := by
  refine .bind (moves_assignment hg) fun _ => .bind (moves_accept _) fun _ => .choice ?_ (.pure _)
  refine .bind hg.expression fun _ => .bind (moves_expect _) fun _ => ?_
  exact .bind hg.expression fun _ => .pure _

/-! ### Statements -/

private theorem moves_initialValue (hg : g.Moves W) : Moves W (initialValue g) :=
  .bind (moves_accept _) fun _ => .choice (.map hg.expression _) (.pure _)

private theorem moves_varDeclaration (hg : g.Moves W) (name : Name) (type : TypeExpr) :
    Moves W (varDeclaration g name type) := by
  rw [varDeclaration_eq]
  exact .bind (moves_initialValue hg) fun _ => .bind (moves_expect _) fun _ => .pure _

private theorem moves_functionDeclaration (hg : g.Moves W) (name : Name) : Moves W (functionDeclaration g name) := by
  refine .bind (moves_paramList hg) fun _ => .bind (moves_expect _) fun _ => .bind (moves_accept _) fun _ => ?_
  exact .choice (.pure _) (.bind (moves_expect _) fun _ => .bind (moves_blockStatements hg) fun _ => .pure _)

private theorem moves_declaration (hg : g.Moves W) (type : TypeExpr) : Moves W (declaration g type) := by
  have hname : Moves W (declaredName type) := by
    unfold declaredName
    split
    · exact .pure _
    · exact .bind (moves_expectOr _ _) fun _ => .pure _
    · exact .bind (moves_expect _) fun _ => .pure _
  refine .bind hname fun _ => .bind (moves_accept _) fun _ => ?_
  exact .choice (.bind (moves_functionDeclaration hg _) fun _ => .pure _)
    (.bind (moves_varDeclaration hg _ _) fun _ => .pure _)

private theorem moves_expressionStatement (hg : g.Moves W) : Moves W (expressionStatement g) :=
  .bind (moves_expression hg) fun _ => .bind (moves_accept _) fun _ => .pure _

private theorem moves_block (hg : g.Moves W) : Moves W (block g) :=
  .bind (moves_blockStatements hg) fun _ => .bind (moves_accept _) fun _ => .pure _

private theorem moves_body (hg : g.Moves W) : Moves W (body g) :=
  .bind (moves_accept _) fun _ => .choice (moves_block hg) hg.statement

private theorem moves_condition (hg : g.Moves W) : Moves W (condition g) :=
  .bind (moves_expect _) fun _ => .bind hg.expression fun _ => .bind (moves_expect _) fun _ => .pure _

private theorem moves_elseBranch (hg : g.Moves W) : Moves W (elseBranch g) :=
  .bind (moves_accept _) fun _ => .choice (.map (moves_body hg) _) (.pure _)

private theorem moves_ifStatement (hg : g.Moves W) : Moves W (ifStatement g) := by
  rw [ifStatement_eq]
  exact .bind (moves_condition hg) fun _ => .bind (moves_body hg) fun _ => .bind (moves_elseBranch hg) fun _ =>
    .pure _

private theorem moves_whileStatement (hg : g.Moves W) : Moves W (whileStatement g) :=
  .bind (moves_condition hg) fun _ => .bind (moves_body hg) fun _ => .pure _

private theorem moves_forInit (hg : g.Moves W) : Moves W (forInit g) := by
  refine .bind (moves_accept _) fun _ => .choice (.pure _) (.bind hg.type? fun _ => ?_)
  split
  · exact .bind (moves_declaration hg _) fun _ => .pure _
  · exact .bind (moves_expressionStatement hg) fun _ => .pure _

private theorem moves_forCondition (hg : g.Moves W) : Moves W (forCondition g) :=
  .bind (moves_accept _) fun _ => .choice (.pure _)
    (.bind hg.expression fun _ => .bind (moves_expect _) fun _ => .pure _)

private theorem moves_expressionBefore (hg : g.Moves W) (closing : Symbol) : Moves W (expressionBefore g closing) :=
  .bind (moves_check _) fun _ => .choice (.pure _) (.map hg.expression _)

private theorem moves_forStatement (hg : g.Moves W) : Moves W (forStatement g) := by
  rw [forStatement_eq]
  refine .bind (moves_expect _) fun _ => .bind (moves_forInit hg) fun _ => .bind (moves_forCondition hg) fun _ => ?_
  refine .bind (moves_expressionBefore hg _) fun _ => ?_
  exact .bind (moves_expect _) fun _ => .bind (moves_body hg) fun _ => .pure _

private theorem moves_returnStatement (hg : g.Moves W) : Moves W (returnStatement g) := by
  rw [returnStatement_eq]
  exact .bind (moves_expressionBefore hg _) fun _ => .bind (moves_expect _) fun _ => .pure _

private theorem moves_printStatement (hg : g.Moves W) : Moves W (printStatement g) :=
  .bind hg.expression fun _ => .bind (moves_expect _) fun _ => .pure _

private theorem moves_selectorPart (hg : g.Moves W) : Moves W (selectorPart g) := by
  rw [selectorPart_eq]
  refine .bind (moves_expect _) fun _ => .bind (moves_neededType hg.type? _) fun _ => ?_
  exact .bind (moves_expect _) fun _ => .bind (moves_expect _) fun _ => .pure _

private theorem moves_methodParams (hg : g.Moves W) : Moves W (methodParams g) := by
  have hsuffix : Moves W (selectorSuffix? g) :=
    .bind (moves_accept _) fun _ => .choice
      (.bind (moves_expect _) fun _ => .bind (moves_selectorPart hg) fun _ => .pure _) (.pure _)
  refine .bind (moves_accept _) fun _ => .choice ?_ (.pure _)
  exact .bind (moves_selectorPart hg) fun _ => .bind (moves_repeated hsuffix) fun _ => .pure _

private theorem moves_methodBody (hg : g.Moves W) : Moves W (methodBody g) :=
  .bind (moves_accept _) fun _ => .choice (moves_blockStatements hg) (.bind (moves_expect _) fun _ => .pure _)

private theorem moves_method (hg : g.Moves W) (isStatic : Bool) : Moves W (method g isStatic) := by
  rw [method_eq]
  refine .bind (moves_selectorPart hg) fun _ => .bind (moves_methodParams hg) fun _ => ?_
  exact .bind (moves_methodBody hg) fun _ => .pure _

private theorem moves_property (hg : g.Moves W) : Moves W (property g) := by
  have hattributes : Moves W propertyAttributes := by
    refine .bind (moves_accept _) fun _ => .choice ?_ (.pure _)
    exact .bind (moves_commaSeparated (moves_accept? _)) fun _ => .bind (moves_expect _) fun _ => .pure _
  rw [property_eq]
  refine .bind hattributes fun _ => .bind (moves_neededType hg.type? _) fun _ => .bind (moves_accept _) fun _ => ?_
  exact .bind (moves_expectOr _ _) fun _ => moves_varDeclaration hg _ _

private theorem moves_inSection : Moves W inSection :=
  .bind (moves_check _) fun _ => .bind moves_atEnd fun _ => .bind moves_hadError fun _ => .pure _

private theorem moves_methodSign? : Moves W methodSign? :=
  .bind (moves_accept? _) fun _ => .pure _

private theorem moves_interfaceMember? (hg : g.Moves W) : Moves W (interfaceMember? g) := by
  refine .bind moves_inSection fun _ => .choice (.bind moves_methodSign? fun _ => ?_) (.pure _)
  split
  · exact .bind (moves_method hg _) fun _ => .pure _
  · refine .bind (moves_accept _) fun _ => ?_
    exact .choice (.bind (moves_property hg) fun _ => .pure _) (.bind (moves_fail _) fun _ => .pure _)

private theorem moves_implementationMember? (hg : g.Moves W) : Moves W (implementationMember? g) := by
  refine .bind moves_inSection fun _ => .choice (.bind moves_methodSign? fun _ => ?_) (.pure _)
  split
  · exact .bind (moves_method hg _) fun _ => .pure _
  · exact .bind (moves_fail _) fun _ => .pure _

private theorem moves_classDeclaration (hg : g.Moves W) : Moves W (classDeclaration g) := by
  have hsuperclass : Moves W superclassName :=
    .bind (moves_accept _) fun _ => .choice (.bind (moves_expect _) fun _ => .pure _) (.pure _)
  rw [classDeclaration_eq]
  refine .bind (moves_expect _) fun _ => .bind hsuperclass fun _ => ?_
  refine .bind (.bind (moves_repeated (moves_interfaceMember? hg)) fun _ => .pure _) fun _ => ?_
  exact .bind (moves_expect _) fun _ => .pure _

private theorem moves_classImplementation (hg : g.Moves W) : Moves W (classImplementation g) := by
  have hcategory : Moves W category := by
    refine .bind (moves_accept _) fun _ => .choice ?_ (.pure _)
    refine .bind (moves_accept _) fun _ => .bind (moves_accept _) fun _ => ?_
    exact .bind (moves_expect _) fun _ => .pure _
  rw [classImplementation_eq]
  refine .bind (moves_expect _) fun _ => .bind hcategory fun _ => ?_
  refine .bind (.bind (moves_repeated (moves_implementationMember? hg)) fun _ => .pure _) fun _ => ?_
  exact .bind (moves_expect _) fun _ => .pure _

/-- What has to be known about a typedef statement, from its keyword on. -/
def TypedefMoves (W : Way) (g : Grammar) : Prop :=
  ∀ c, c.current.kind = .keyword .typedefWord → W.rel c ((Parse.statement g).result c).2

private theorem moves_statement (hg : g.Moves W) (htypedef : TypedefMoves W g) : Moves W (Parse.statement g) := by
  intro c
  by_cases hkind : c.current.kind = .keyword .typedefWord
  · exact htypedef c hkind
  · unfold Parse.statement
    rw [result_bind_ok (result_current c)]
    have after {p : Parse Stmt} (h : Moves W p) : W.rel c ((advance >>= fun _ => p).result c).2 :=
      Moves.bind moves_advance (fun _ => h) c
    split
    · exact after (moves_block hg)
    · exact after (moves_ifStatement hg)
    · exact after (moves_returnStatement hg)
    · exact after (moves_whileStatement hg)
    · exact after (moves_forStatement hg)
    · exact after (moves_printStatement hg)
    · exact after (moves_classDeclaration hg)
    · exact after (moves_classImplementation hg)
    · next h => exact absurd h hkind
    · exact moves_expressionStatement hg c

private theorem moves_start (hg : g.Moves W) (htypedef : TypedefMoves W g) : Moves W (Parse.start g) := by
  refine .bind (moves_type? hg.type?) fun _ => ?_
  split
  · exact moves_declaration hg _
  · exact moves_statement hg htypedef

end Parse

/-- The parsers for types go along every way. -/
theorem moves_grammar_type? (W : Way) (n : Nat) : Parse.Moves W (grammar n).type? := by
  induction n with
  | zero => exact moves_cutOff _
  | succ n ih => exact moves_type? ih

/-- The parsers go along every way that the typedef statements go along. -/
theorem grammar_moves {W : Way} (h : ∀ n, TypedefMoves W (grammar n)) (n : Nat) : (grammar n).Moves W := by
  induction n with
  | zero => constructor <;> exact moves_cutOff _
  | succ n ih =>
    exact ⟨moves_type? ih.type?, moves_expression ih, moves_assignment ih, moves_factor ih, moves_unary ih,
      moves_start ih (h n), moves_statement ih (h n)⟩

/-- So does the parser for a program. -/
theorem moves_program {W : Way} (h : ∀ n, TypedefMoves W (grammar n)) : Parse.Moves W program := by
  refine .look fun c => moves_repeated ?_
  refine .bind moves_atEnd fun _ => .bind moves_hadError fun _ => .choice (.pure _) ?_
  exact .bind (grammar_moves h _).start fun _ => .pure _

end ObjScript
