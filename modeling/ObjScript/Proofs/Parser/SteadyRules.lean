import ObjScript.Proofs.Parser.RoundTrip
import ObjScript.Proofs.Parser.Steady

/-!
# The rules of the grammar before text that does not go on

What follows the tokens of an expression makes no difference if it does not go on with an expression.  Inside the
expression there are types and whole statements, but none of them comes up to the seam: something in the expression
closes them, so that it is enough to know them before the seam (`grammar_steady`).

The one place where the parser looks at two tokens is the beginning of a block type, and so the text that follows must
not begin with a caret.
-/

namespace ObjScript

open Parse

/-- What follows makes no difference to the parsers of `g` when at most `k` tokens are left alone. -/
structure Grammar.Steady (S : Seam) (k : Nat) (g : Grammar) : Prop where
  moves : g.Moves .within
  reads : g.Reads k g
  caret : S.next.kind ≠ .symbol .caret
  type? : Parse.Steady S k False g.type?
  expression : Parse.Steady S k S.Ends g.expression
  assignment : Parse.Steady S k S.Ends g.assignment
  factor : Parse.Steady S k S.Ends g.factor
  unary : Parse.Steady S k S.Ends g.unary
  start : Parse.Steady S k False g.start
  statement : Parse.Steady S k False g.statement

theorem Grammar.Moves.forward {g : Grammar} (h : g.Moves .within) : g.Moves .forward :=
  ⟨h.type?.forward, h.expression.forward, h.assignment.forward, h.factor.forward, h.unary.forward, h.start.forward,
    h.statement.forward⟩

private theorem Seam.Ends.ne {S : Seam} (h : S.Ends) {kind : Kind} (hkind : kind.continuation? ≠ none) :
    S.next.kind ≠ kind := by
  rintro rfl
  exact hkind h

namespace Parse

variable {β : Type} {S : Seam} {g : Grammar} {k : Nat} {whole : Prop}

/-! ### Types -/

private theorem steady_opensBlockType (hcaret : S.next.kind ≠ .symbol .caret) : Steady S k False opensBlockType := by
  refine .ofCons moves_opensBlockType False.elim fun T t X _ _ => ?_
  refine .of_result _ T (t :: X) (result_opensBlockType _) ?_
  rw [result_opensBlockType, S.joined_current, S.alone_current]
  cases X with
  | cons u X => rfl
  | nil =>
    have halone : (S.alone T [t]).second.is (.symbol .caret) = false := decide_eq_false (S.eof ▸ nofun)
    have hjoined : (S.joined T [t]).second.is (.symbol .caret) = false := by
      refine decide_eq_false ?_
      have hback : (S.joined T [t]).second = S.next := by
        obtain ⟨u, back, hback⟩ := List.exists_cons_of_ne_nil S.goesOn
        simp [Seam.joined, Cursor.second, Seam.next, hback]
      rwa [hback]
    rw [halone, hjoined]

private theorem steady_typeList (hg : g.Steady S k) : Steady S k False (typeList g) :=
  .bind (steady_commaSeparated hg.type?) fun _ => .pure _

private theorem steady_innermostBlock (hg : g.Steady S k) (blocks : BlockHeads) :
    Steady S k False (innermostBlock blocks) := by
  refine .bind (steady_opensBlockType hg.caret) fun _ => ?_
  split
  · exact .bind steady_advance fun _ => .bind steady_advance fun _ => .pure _
  · exact .pure _

private theorem steady_closedBlock (hg : g.Steady S k) (blocks : BlockHeads) :
    Steady S k False (closedBlock g blocks) := by
  refine .bind (steady_accept? rfl) fun name => .bind (steady_accept nofun) fun _ => ?_
  split
  · refine .bind (steady_expect nofun) fun _ => .bind (steady_typeList hg) fun _ => ?_
    exact .bind (steady_expect nofun) fun _ => .pure _
  · exact .bind (steady_fail _) fun _ => .pure _

private theorem steady_blockHead? (hg : g.Steady S k) (blocks : BlockHeads) :
    Steady S k False (blockHead? g blocks) := by
  rw [blockHead?_eq]
  refine .bind steady_hadError fun _ => ?_
  split
  · exact .pure _
  · exact .bind (steady_innermostBlock hg blocks) fun blocks => steady_closedBlock hg blocks

private theorem steady_blockType (hg : g.Steady S k) (base : TypeExpr) : Steady S k False (blockType g base) := by
  refine .bind (steady_expect nofun) fun _ => .bind (steady_expect nofun) fun _ => ?_
  refine .bind (steady_extend _ (steady_blockHead? hg) fun b => ?_) fun _ => .pure _
  exact advances_of_turns (turns_blockHead? hg.reads b)

/-- What comes after the name of a type may be less deep. -/
private theorem Steady.afterTypeName {F : Option Token → Parse β} (hs : ∀ t, Steady S k False (F (some t)))
    (hn : Steady S (k + 1) False (F none)) : Steady S (k + 1) False (typeName? >>= F) := by
  have hmoves : ∀ o, Moves .within (F o) := Option.forall.2 ⟨hn.moves, fun t => (hs t).moves⟩
  refine .ofCons (.bind (.look fun _ => moves_accept? _) hmoves) False.elim fun T t X hX hk => ?_
  -- the names of the types are known alike, so the parser asks for the same tokens
  have haccept : Steady S (k + 1) False
      (accept? (fun kind => kind.opensType || (decide (kind = .ident) && T.contains t.text)) >>= F) :=
    .acceptOption (Nat.le_refl _) rfl hs hn False.elim
  exact haccept.steady T (t :: X) hX hk

/-- What comes after a type may be less deep. -/
private theorem Steady.afterType {F : Option TypeExpr → Parse β} (hg : g.Steady S k)
    (hs : ∀ t, Steady S k False (F (some t))) (hn : Steady S (k + 1) False (F none)) :
    Steady S (k + 1) False (Parse.type? g >>= F) := by
  unfold Parse.type?
  rw [bind_assoc]
  refine .afterTypeName (fun t => ?_) (by simpa only [pure_bind] using hn)
  simp only [bind_assoc]
  refine .bind (steady_accept nofun) fun _ => .bind (steady_opensBlockType hg.caret) fun _ => ?_
  split
  · simp only [bind_assoc, pure_bind]
    exact .bind (steady_blockType hg _) hs
  · simpa only [pure_bind] using hs _

private theorem steady_type? (hg : g.Steady S k) : Steady S (k + 1) False (Parse.type? g) := by
  have h : Steady S (k + 1) False (Parse.type? g >>= Pure.pure) := .afterType hg (fun _ => .pure _) (.pure _)
  rwa [bind_pure] at h

/-! ### Expressions -/

private theorem steady_listBefore (hg : g.Steady S k) (closing : Symbol) :
    Steady S k False (listBefore g closing) := by
  refine .bind (steady_check _) fun _ => ?_
  split
  · exact .pure _
  · exact steady_commaSeparated hg.expression.before

theorem steady_arguments (hg : g.Steady S k) (closing : Symbol) : Steady S k whole (arguments g closing) := by
  rw [arguments_eq]
  exact .bindExpect nofun (steady_listBefore hg closing) fun args _ => .pure _

private theorem steady_primary (hg : g.Steady S k) : Steady S (k + 1) whole (primary g) := by
  refine .peek (moves_primary hg.moves) (fun _ => stuck_of_reads (reads_primary hg.reads)) fun T t X hX hk => ?_
  have after {p : Parse Expr} (h : Steady S k whole p) :
      SteadyAt S T (t :: X) whole (advance >>= fun _ => p) (advance >>= fun _ => p) :=
    h.advanced hX (by omega)
  split
  case h_1 =>
    cases Number.read? t.text with
    | some x => exact after (.pure _)
    | none => exact after (.throw _)
  case h_3 => exact after (.bindExpect nofun hg.expression.before fun e _ => .pure _)
  case h_4 => exact after (.bind (steady_arguments hg _) fun l => .pure _)
  case h_12 =>
    have hfail : Steady S (k + 1) whole (fail (.expectedExpression t.kind) >>= fun _ => pure (Expr.literal .nil)) :=
      .bind (steady_fail _) fun _ => .pure _
    exact hfail.steady T (t :: X) hX hk
  all_goals exact after (.pure _)

private theorem steady_messageArgument? (hg : g.Steady S k) : Steady S k False (messageArgument? g) := by
  refine .bind (steady_check _) fun _ => .bind steady_atEnd fun _ => .bind steady_hadError fun _ => ?_
  split
  · exact .pure _
  · refine .bind (steady_expect nofun) fun _ => .bind (steady_expect nofun) fun _ => ?_
    exact .bind hg.expression.before fun _ => .pure _

private theorem steady_messageArguments (hg : g.Steady S k) : Steady S k False (messageArguments g) := by
  have harguments :=
    steady_repeated (steady_messageArgument? hg) (advances_of_turns (turns_messageArgument? hg.reads))
  refine .bind (steady_accept nofun) fun _ => ?_
  split
  · exact .bind hg.expression.before fun _ => .bind harguments fun _ => .pure _
  · exact .pure _

theorem steady_messageSend (hg : g.Steady S k) : Steady S (k + 1) whole (messageSend g) := by
  rw [messageSend_eq]
  refine .accept nofun (Nat.le_refl _) ?_ (steady_primary hg) fun _ => .inr (stuck_of_reads (reads_primary hg.reads))
  refine .bindExpect nofun hg.factor.before fun receiver selector => ?_
  exact .bindExpect nofun (steady_messageArguments hg) fun args _ => .pure _

theorem steady_callSuffix? (hg : g.Steady S k) (e : Expr) : Steady S (k + 1) S.Ends (callSuffix? g e) := by
  unfold callSuffix?
  refine .accept nofun (Nat.le_refl _) ?_ (.accept nofun (Nat.le_refl _) ?_ (.pure _) ?_) ?_
  · exact .bind (steady_arguments hg _) fun _ => .pure _
  · exact .bind (steady_expect nofun) fun _ => .pure _
  · exact fun h => .inl (h.ne nofun)
  · exact fun h => .inl (h.ne nofun)

theorem steady_call (hg : g.Steady S k) : Steady S (k + 1) S.Ends (call g) :=
  .bind (steady_messageSend hg) fun e =>
    steady_extend e (steady_callSuffix? hg) (advances_callSuffix? hg.moves.forward)

private theorem steady_param? (hg : g.Steady S k) : Steady S k False (param? g) := by
  refine .bind hg.type? fun _ => ?_
  split
  · exact .pure _
  · split
    · exact .pure _
    · refine .bind (steady_accept? rfl) fun _ => ?_
      split
      · exact .pure _
      · exact .pure _
      · exact .bind (steady_expect nofun) fun _ => .pure _

private theorem steady_paramList (hg : g.Steady S k) : Steady S k False (paramList g) := by
  refine .bind (steady_check _) fun _ => ?_
  split
  · exact .pure _
  · exact .bind (steady_commaSeparated (steady_param? hg)) fun _ => .pure _

private theorem steady_blockStatement? (hg : g.Steady S k) : Steady S k False (blockStatement? g) := by
  refine .bind (steady_check _) fun _ => .bind steady_atEnd fun _ => .bind steady_hadError fun _ => ?_
  split
  · exact .pure _
  · exact .bind hg.start fun _ => .pure _

/-- Statements between braces are over before the seam. -/
private theorem steady_blockStatements (hg : g.Steady S k) : Steady S k whole (blockStatements g) := by
  refine .bindExpect nofun (steady_repeated (steady_blockStatement? hg) ?_) fun _ _ => .pure _
  exact advances_of_turns (turns_blockStatement? hg.reads)

private theorem steady_blockParams (hg : g.Steady S k) : Steady S k False (blockParams g) := by
  refine .bind (steady_accept nofun) fun _ => ?_
  split
  · exact .bind (steady_paramList hg) fun _ => .bind (steady_expect nofun) fun _ => .pure _
  · exact .pure _

private theorem steady_blockLiteral (hg : g.Steady S k) : Steady S (k + 1) S.Ends (blockLiteral g) := by
  rw [blockLiteral_eq]
  refine .accept nofun (Nat.le_refl _) ?_ (steady_call hg) fun _ => .inl hg.caret
  -- the brace comes after both the type and the parameters
  have hhead : Steady S k False (g.type? >>= fun returns => Prod.mk returns <$> blockParams g) :=
    .bind hg.type? fun returns => .map (steady_blockParams hg) _
  have hliteral : Steady S k S.Ends ((g.type? >>= fun returns => Prod.mk returns <$> blockParams g) >>= fun head =>
      expect (.symbol .lbrace) >>= fun _ => Expr.block head.1 head.2 <$> blockStatements g) :=
    .bindExpect nofun hhead fun head _ => .map (steady_blockStatements hg) _
  simpa only [map_eq_pure_bind, bind_assoc, pure_bind] using hliteral

private theorem steady_unary (hg : g.Steady S k) : Steady S (k + 1) S.Ends (unary g) := by
  refine .peek (moves_unary hg.moves) (fun _ => stuck_of_reads (reads_unary hg.reads)) fun T t X hX hk => ?_
  split
  · exact Steady.advanced (.bind hg.unary fun e => .pure _) hX (by omega)
  · exact (steady_blockLiteral hg).steady T (t :: X) hX hk

private theorem steady_index (hg : g.Steady S k) : Steady S (k + 1) S.Ends (index g) := by
  refine .bind (steady_unary hg) fun e => steady_extend e (fun e => ?_) (advances_indexSuffix? hg.moves.forward)
  refine .accept nofun (Nat.le_refl _) ?_ (.pure _) fun h => .inl (h.ne nofun)
  exact .bindExpect nofun hg.expression.before fun place _ => .pure _

/-- A level of operators, none of which is what follows. -/
private theorem steady_binaryLevel {operand : Parse Expr} {op? : Kind → Option BinaryOp}
    (h : Steady S (k + 1) S.Ends operand)
    (heof : op? .eof = none) (hnext : S.Ends → op? S.next.kind = none) :
    Steady S (k + 1) S.Ends (binaryLevel operand op?) := by
  refine .bind h fun e => steady_extend e (fun e => ?_) (advances_binarySuffix? h.moves.forward heof)
  have hmoves : Moves .within (binarySuffix? operand op? e) := by
    refine .bind moves_current fun t => ?_
    split
    · exact .bind moves_advance fun _ => .bind h.moves fun _ => .pure _
    · exact .pure _
  refine .peekNext hmoves (fun T t X hX hk => ?_) fun hends T => ?_
  · split
    · exact Steady.advanced (.bind h fun r => .pure _) hX (by omega)
    · exact .pure
  · simp only [S.eof, heof, hnext hends]
    exact .pure

private theorem steady_logicalLevel {operand : Parse Expr} {op : LogicOp} (h : Steady S (k + 1) S.Ends operand) :
    Steady S (k + 1) S.Ends (logicalLevel operand op) := by
  refine .bind h fun e => steady_extend e (fun e => ?_) fun e => ?_
  · refine .accept nofun (Nat.le_succ _) (.bind h fun _ => .pure _) (.pure _) fun hends => .inl (hends.ne ?_)
    cases op <;> nofun
  · exact .accept nofun (.bind h.moves.forward fun _ => .pure _) advances_none

private theorem steady_factor (hg : g.Steady S k) : Steady S (k + 1) S.Ends (factor g) :=
  steady_binaryLevel (steady_index hg) rfl fun h => (binaryOp?_of_stops (stops_of_none h 0)).2.2.2 (by omega)

private theorem steady_disjunction (hg : g.Steady S k) : Steady S (k + 1) S.Ends (disjunction g) := by
  have hterm : Steady S (k + 1) S.Ends (term g) :=
    steady_binaryLevel (steady_factor hg) rfl fun h => (binaryOp?_of_stops (stops_of_none h 0)).2.2.1 (by omega)
  have hcomparison : Steady S (k + 1) S.Ends (comparison g) :=
    steady_binaryLevel hterm rfl fun h => (binaryOp?_of_stops (stops_of_none h 0)).2.1 (by omega)
  have hequality : Steady S (k + 1) S.Ends (equality g) :=
    steady_binaryLevel hcomparison rfl fun h => (binaryOp?_of_stops (stops_of_none h 0)).1 (by omega)
  exact steady_logicalLevel (steady_logicalLevel hequality)

private theorem steady_assignTo (target value : Expr) (op : AssignOp) (pos : Pos) (fault : SyntaxFault) :
    Steady S k whole (assignTo target op pos value fault) := by
  unfold assignTo
  split
  · exact .pure _
  · exact .pure _
  · exact .pure _
  · exact .bind (steady_fail _) fun _ => .pure _

private theorem steady_increment (hg : g.Steady S k) : Steady S (k + 1) S.Ends (increment g) := by
  have hincr : ∀ target (t : Token), Steady S (k + 1) S.Ends (accept (.symbol .incr) >>= fun b => if b = true then
      assignTo target .increment t.pos (.literal (.number 1)) .invalidIncrement else pure target) :=
    fun _ _ => .accept nofun (Nat.le_refl _) (steady_assignTo _ _ _ _ _) (.pure _) fun h => .inl (h.ne nofun)
  refine .bind (steady_disjunction hg) fun target => .peekNext ?_ (fun T t X hX hk => ?_) fun hends T => ?_
  · exact .bind moves_current fun t => (hincr target t).moves
  · exact (hincr target t).steady T (t :: X) hX hk
  · have hnone : ∀ (c : Cursor) (t : Token), c.current.kind ≠ .symbol .incr → (accept (.symbol .incr) >>= fun b =>
        if b = true then assignTo target .increment t.pos (.literal (.number 1)) .invalidIncrement
        else pure target).result c = (.ok target, c) := by
      intro c t hc
      rw [result_bind_ok (result_accept_of_ne hc)]
      rfl
    exact .of_result target T [] (hnone _ _ (S.eof ▸ nofun)) (hnone _ _ (hends.ne nofun))

private theorem steady_assignment (hg : g.Steady S k) : Steady S (k + 1) S.Ends (assignment g) := by
  refine .bind (steady_increment hg) fun target => .peekNext ?_ (fun T t X hX hk => ?_) fun hends T => ?_
  · refine .bind moves_current fun _ => ?_
    split
    · exact .bind moves_advance fun _ => .bind hg.moves.assignment fun _ => moves_assignTo _ _ _ _ _
    · exact .pure _
  · split
    · exact Steady.advanced (.bind hg.assignment fun _ => steady_assignTo _ _ _ _ _) hX (by omega)
    · exact .pure
  · have hnext : assignOp? S.next.kind = none := by
      unfold assignOp?
      split
      · next h => exact absurd h (hends.ne nofun)
      · next h => exact absurd h (hends.ne nofun)
      · rfl
    have hlast : assignOp? S.last.kind = none := by
      rw [S.eof]
      rfl
    simp only [hlast, hnext]
    exact .pure

theorem steady_expression (hg : g.Steady S k) : Steady S (k + 1) S.Ends (expression g) := by
  refine .bind (steady_assignment hg) fun condition => ?_
  refine .accept nofun (Nat.le_refl _) ?_ (.pure _) fun h => .inl (h.ne nofun)
  exact .bindExpect nofun hg.expression.before fun yes _ => .bind hg.expression fun no => .pure _

/-! ### Statements -/

private theorem steady_initialValue (hg : g.Steady S k) : Steady S k False (initialValue g) := by
  refine .bind (steady_accept nofun) fun _ => ?_
  split
  · exact .map hg.expression.before _
  · exact .pure _

private theorem steady_varDeclaration (hg : g.Steady S k) (name : Name) (type : TypeExpr) :
    Steady S k False (varDeclaration g name type) := by
  rw [varDeclaration_eq]
  exact .bind (steady_initialValue hg) fun _ => .bind (steady_expect nofun) fun _ => .pure _

private theorem steady_functionDeclaration (hg : g.Steady S k) (name : Name) :
    Steady S k False (functionDeclaration g name) := by
  refine .bind (steady_paramList hg) fun _ => .bind (steady_expect nofun) fun _ => ?_
  refine .bind (steady_accept nofun) fun _ => ?_
  split
  · exact .pure _
  · exact .bind (steady_expect nofun) fun _ => .bind (steady_blockStatements hg) fun _ => .pure _

private theorem steady_declaration (hg : g.Steady S k) (type : TypeExpr) : Steady S k False (declaration g type) := by
  have hname : Steady S k False (declaredName type) := by
    unfold declaredName
    split
    · exact .pure _
    · exact .bind (steady_expectOr rfl) fun _ => .pure _
    · exact .bind (steady_expect nofun) fun _ => .pure _
  refine .bind hname fun _ => .bind (steady_accept nofun) fun _ => ?_
  split
  · exact .bind (steady_functionDeclaration hg _) fun _ => .pure _
  · exact .bind (steady_varDeclaration hg _ _) fun _ => .pure _

private theorem steady_expressionStatement (hg : g.Steady S k) : Steady S (k + 1) False (expressionStatement g) :=
  .bind (steady_expression hg).before fun _ => .bind (steady_accept nofun) fun _ => .pure _

private theorem steady_block (hg : g.Steady S k) : Steady S k False (block g) :=
  .bind (steady_blockStatements hg) fun _ => .bind (steady_accept nofun) fun _ => .pure _

private theorem steady_body (hg : g.Steady S k) : Steady S k False (body g) := by
  refine .bind (steady_accept nofun) fun _ => ?_
  split
  · exact steady_block hg
  · exact hg.statement

private theorem steady_condition (hg : g.Steady S k) : Steady S k False (condition g) := by
  refine .bind (steady_expect nofun) fun _ => .bind hg.expression.before fun _ => ?_
  exact .bind (steady_expect nofun) fun _ => .pure _

private theorem steady_elseBranch (hg : g.Steady S k) : Steady S k False (elseBranch g) := by
  refine .bind (steady_accept nofun) fun _ => ?_
  split
  · exact .map (steady_body hg) _
  · exact .pure _

private theorem steady_ifStatement (hg : g.Steady S k) : Steady S k False (ifStatement g) := by
  rw [ifStatement_eq]
  refine .bind (steady_condition hg) fun _ => .bind (steady_body hg) fun _ => ?_
  exact .bind (steady_elseBranch hg) fun _ => .pure _

private theorem steady_whileStatement (hg : g.Steady S k) : Steady S k False (whileStatement g) :=
  .bind (steady_condition hg) fun _ => .bind (steady_body hg) fun _ => .pure _

private theorem steady_forInit (hg : g.Steady S k) : Steady S k False (forInit g) := by
  refine .bind (steady_accept nofun) fun _ => ?_
  split
  · exact .pure _
  · refine .bind hg.type? fun _ => ?_
    split
    · exact .bind (steady_declaration hg _) fun _ => .pure _
    · exact .bind ((steady_expressionStatement hg).mono (Nat.le_succ k)) fun _ => .pure _

private theorem steady_forCondition (hg : g.Steady S k) : Steady S k False (forCondition g) := by
  refine .bind (steady_accept nofun) fun _ => ?_
  split
  · exact .pure _
  · exact .bind hg.expression.before fun _ => .bind (steady_expect nofun) fun _ => .pure _

private theorem steady_expressionBefore (hg : g.Steady S k) (closing : Symbol) :
    Steady S k False (expressionBefore g closing) := by
  refine .bind (steady_check _) fun _ => ?_
  split
  · exact .pure _
  · exact .map hg.expression.before _

private theorem steady_forStatement (hg : g.Steady S k) : Steady S k False (forStatement g) := by
  rw [forStatement_eq]
  refine .bind (steady_expect nofun) fun _ => .bind (steady_forInit hg) fun _ => ?_
  refine .bind (steady_forCondition hg) fun _ => .bind (steady_expressionBefore hg _) fun _ => ?_
  exact .bind (steady_expect nofun) fun _ => .bind (steady_body hg) fun _ => .pure _

private theorem steady_returnStatement (hg : g.Steady S k) : Steady S k False (returnStatement g) := by
  rw [returnStatement_eq]
  exact .bind (steady_expressionBefore hg _) fun _ => .bind (steady_expect nofun) fun _ => .pure _

private theorem steady_printStatement (hg : g.Steady S k) : Steady S k False (printStatement g) :=
  .bind hg.expression.before fun _ => .bind (steady_expect nofun) fun _ => .pure _

private theorem steady_typedefRest (type : TypeExpr) : Steady S k False (typedefRest type) := by
  have hname : Steady S k False (typedefName type) := by
    unfold typedefName
    split
    · exact .pure _
    · exact .bind (steady_expect nofun) fun _ => .pure _
  exact .bind hname fun _ => .bind (steady_expect nofun) fun _ => .bind (steady_register _) fun _ => .pure _

private theorem steady_typedefStatement (hg : g.Steady S k) : Steady S k False (typedefStatement g) := by
  rw [typedefStatement_eq]
  refine .bind hg.type? fun _ => ?_
  split
  · exact .bind (steady_fail _) fun _ => .bind (steady_expect nofun) fun _ => .pure _
  · exact steady_typedefRest _

private theorem steady_neededType (hg : g.Steady S k) (fault : SyntaxFault) :
    Steady S k False (neededType g fault) := by
  refine .bind hg.type? fun _ => ?_
  split
  · exact .pure _
  · exact .bind (steady_fail _) fun _ => .pure _

private theorem steady_selectorPart (hg : g.Steady S k) : Steady S k False (selectorPart g) := by
  rw [selectorPart_eq]
  refine .bind (steady_expect nofun) fun _ => .bind (steady_neededType hg _) fun _ => ?_
  exact .bind (steady_expect nofun) fun _ => .bind (steady_expect nofun) fun _ => .pure _

private theorem steady_selectorSuffix? (hg : g.Steady S k) : Steady S k False (selectorSuffix? g) := by
  refine .bind (steady_accept nofun) fun _ => ?_
  split
  · exact .bind (steady_expect nofun) fun _ => .bind (steady_selectorPart hg) fun _ => .pure _
  · exact .pure _

private theorem steady_methodParams (hg : g.Steady S k) : Steady S k False (methodParams g) := by
  have hsuffixes := steady_repeated (steady_selectorSuffix? hg) (advances_of_turns (turns_selectorSuffix? hg.reads))
  refine .bind (steady_accept nofun) fun _ => ?_
  split
  · exact .bind (steady_selectorPart hg) fun _ => .bind hsuffixes fun _ => .pure _
  · exact .pure _

private theorem steady_methodBody (hg : g.Steady S k) : Steady S k False (methodBody g) := by
  refine .bind (steady_accept nofun) fun _ => ?_
  split
  · exact steady_blockStatements hg
  · exact .bind (steady_expect nofun) fun _ => .pure _

private theorem steady_method (hg : g.Steady S k) (isStatic : Bool) : Steady S k False (method g isStatic) := by
  rw [method_eq]
  refine .bind (steady_selectorPart hg) fun _ => .bind (steady_methodParams hg) fun _ => ?_
  exact .bind (steady_methodBody hg) fun _ => .pure _

private theorem steady_propertyAttributes : Steady S k False propertyAttributes := by
  refine .bind (steady_accept nofun) fun _ => ?_
  split
  · exact .bind (steady_commaSeparated (steady_accept? rfl)) fun _ => .bind (steady_expect nofun) fun _ => .pure _
  · exact .pure _

private theorem steady_property (hg : g.Steady S k) : Steady S k False (property g) := by
  rw [property_eq]
  refine .bind steady_propertyAttributes fun _ => .bind (steady_neededType hg _) fun _ => ?_
  exact .bind (steady_accept nofun) fun _ => .bind (steady_expectOr rfl) fun _ => steady_varDeclaration hg _ _

private theorem steady_inSection : Steady S k False inSection :=
  .bind (steady_check _) fun _ => .bind steady_atEnd fun _ => .bind steady_hadError fun _ => .pure _

private theorem steady_methodSign? : Steady S k False methodSign? :=
  .bind (steady_accept? rfl) fun _ => .pure _

private theorem steady_interfaceMember? (hg : g.Steady S k) : Steady S k False (interfaceMember? g) := by
  refine .bind steady_inSection fun _ => ?_
  split
  · refine .bind steady_methodSign? fun _ => ?_
    split
    · exact .bind (steady_method hg _) fun _ => .pure _
    · refine .bind (steady_accept nofun) fun _ => ?_
      split
      · exact .bind (steady_property hg) fun _ => .pure _
      · exact .bind (steady_fail _) fun _ => .pure _
  · exact .pure _

private theorem steady_implementationMember? (hg : g.Steady S k) : Steady S k False (implementationMember? g) := by
  refine .bind steady_inSection fun _ => ?_
  split
  · refine .bind steady_methodSign? fun _ => ?_
    split
    · exact .bind (steady_method hg _) fun _ => .pure _
    · exact .bind (steady_fail _) fun _ => .pure _
  · exact .pure _

private theorem steady_superclassName : Steady S k False superclassName := by
  refine .bind (steady_accept nofun) fun _ => ?_
  split
  · exact .bind (steady_expect nofun) fun _ => .pure _
  · exact .pure _

private theorem steady_classDeclaration (hg : g.Steady S k) : Steady S k False (classDeclaration g) := by
  have hmembers := steady_repeated (steady_interfaceMember? hg) (advances_of_turns (turns_interfaceMember? hg.reads))
  rw [classDeclaration_eq]
  refine .bind (steady_expect nofun) fun _ => .bind steady_superclassName fun _ => ?_
  exact .bind (.bind hmembers fun _ => .pure _) fun _ => .bind (steady_expect nofun) fun _ => .pure _

private theorem steady_category : Steady S k False category := by
  refine .bind (steady_accept nofun) fun _ => ?_
  split
  · refine .bind (steady_accept nofun) fun _ => .bind (steady_accept nofun) fun _ => ?_
    exact .bind (steady_expect nofun) fun _ => .pure _
  · exact .pure _

private theorem steady_classImplementation (hg : g.Steady S k) : Steady S k False (classImplementation g) := by
  have hmembers :=
    steady_repeated (steady_implementationMember? hg) (advances_of_turns (turns_implementationMember? hg.reads))
  rw [classImplementation_eq]
  refine .bind (steady_expect nofun) fun _ => .bind steady_category fun _ => ?_
  exact .bind (.bind hmembers fun _ => .pure _) fun _ => .bind (steady_expect nofun) fun _ => .pure _

private theorem steady_statement (hg : g.Steady S k) (hmoves : Moves .within (Parse.statement g)) :
    Steady S (k + 1) False (Parse.statement g) := by
  refine .peek hmoves False.elim fun T t X hX hk => ?_
  have after {p : Parse Stmt} (h : Steady S k False p) :
      SteadyAt S T (t :: X) False (advance >>= fun _ => p) (advance >>= fun _ => p) :=
    h.advanced hX (by omega)
  split
  · exact after (steady_block hg)
  · exact after (steady_ifStatement hg)
  · exact after (steady_returnStatement hg)
  · exact after (steady_whileStatement hg)
  · exact after (steady_forStatement hg)
  · exact after (steady_printStatement hg)
  · exact after (steady_classDeclaration hg)
  · exact after (steady_classImplementation hg)
  · exact after (steady_typedefStatement hg)
  · exact (steady_expressionStatement hg).steady T (t :: X) hX hk

private theorem steady_start (hg : g.Steady S k) (hmoves : Moves .within (Parse.statement g)) :
    Steady S (k + 1) False (Parse.start g) :=
  .afterType hg (steady_declaration hg) (steady_statement hg hmoves)

end Parse

/-- What follows the tokens makes no difference to parsers of nesting `k` or more when at most `k` tokens are left
alone. -/
theorem grammar_steady (S : Seam) (hcaret : S.next.kind ≠ .symbol .caret) (k : Nat) :
    ∀ n, k ≤ n → (grammar n).Steady S k := by
  induction k with
  | zero =>
    -- alone there is always the end token
    intro n _
    have hmoves := grammar_moves typedefMoves_within n
    have hnone {α : Type} {whole : Prop} {p : Parse α} (h : Parse.Moves .within p) : Parse.Steady S 0 whole p :=
      ⟨h, fun _ _ _ hk => absurd hk (Nat.not_lt_zero _)⟩
    exact ⟨hmoves, grammar_reads 0 _ _ (Nat.zero_le n) (Nat.zero_le n), hcaret, hnone hmoves.type?,
      hnone hmoves.expression, hnone hmoves.assignment, hnone hmoves.factor, hnone hmoves.unary, hnone hmoves.start,
      hnone hmoves.statement⟩
  | succ k ih =>
    intro n hn
    obtain ⟨n, rfl⟩ : ∃ n', n = n' + 1 := ⟨n - 1, by omega⟩
    have hg := ih n (by omega)
    have hmoves := grammar_moves typedefMoves_within (n + 1)
    exact ⟨hmoves, grammar_reads (k + 1) _ _ hn hn, hcaret, steady_type? hg, steady_expression hg,
      steady_assignment hg, steady_factor hg, steady_unary hg, steady_start hg hmoves.statement,
      steady_statement hg hmoves.statement⟩

end ObjScript
