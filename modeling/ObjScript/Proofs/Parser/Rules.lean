import ObjScript.Proofs.Parser.Parts
import ObjScript.Proofs.Parser.Reading
import ObjScript.Proofs.Syntax.Nodes

/-!
# The rules of the grammar, one by one

Every rule reads on from its cursor and stops, and builds trees `AsParsed`.  The parsers `g` and `g'` for the
parts of a rule are only known to do so with at most `k` tokens left.  A rule that calls them after it has
read a token of its own may therefore begin with `k + 1` tokens left.
-/

namespace ObjScript

open Parse

/-- The parsers of `g` and `g'` do the same with at most `k` tokens left, and do it as `Parse.Reads` says. -/
structure Grammar.Reads (k : Nat) (g g' : Grammar) : Prop where
  type? : Parse.Reads (fun o => o.isSome = true) k g.type? g'.type? Any
  expression : Parse.Reads Any k g.expression g'.expression Expr.AsParsed
  assignment : Parse.Reads Any k g.assignment g'.assignment Expr.AsParsed
  factor : Parse.Reads Any k g.factor g'.factor Expr.AsParsed
  unary : Parse.Reads Any k g.unary g'.unary Expr.AsParsed
  start : Parse.Reads Any k g.start g'.start Stmt.AsParsed
  statement : Parse.Reads Any k g.statement g'.statement fun s => s.AsParsed ∧ s.isDeclaration = false

namespace Parse

variable {g g' : Grammar} {k : Nat}

/-- A part that is there. -/
private theorem Reads.given {α : Type} {moves : α → Prop} {p q : Parse α} {P : α → Prop} (h : Reads moves k p q P) :
    Reads Never k (some <$> p) (some <$> q) fun o => ∀ a ∈ o, P a := by
  simp only [map_eq_pure_bind]
  exact .bind h fun a ha => .pure fun b hb => Option.some.inj hb ▸ ha

/-! ### Types -/

private theorem reads_advance : Reads Never k advance advance Any := by
  intro c hc _
  refine ⟨rfl, .inl ⟨_, c.advance, rfl, ?_, False.elim, trivial⟩⟩
  by_cases h : c.current.kind = .eof
  · have : c.advance = c := by simp [Cursor.advance, Cursor.atEnd, Token.is, h]
    rw [this]
    exact .refl hc
  · exact (Cursor.later_advance hc h).1

private theorem reads_opensBlockType : Reads Never k opensBlockType opensBlockType Any :=
  .look fun _ => .pure trivial

private theorem reads_typeList (hg : g.Reads k g') : Reads Never k (typeList g) (typeList g') Any :=
  .bind (reads_commaSeparated hg.type?.never) fun _ _ => .pure trivial

private theorem reads_innermostBlock (blocks : BlockHeads) :
    Reads Never k (innermostBlock blocks) (innermostBlock blocks) Any := by
  refine .bind reads_opensBlockType fun b _ => ?_
  split
  · exact .bind reads_advance fun _ _ => .bind reads_advance fun _ _ => .pure trivial
  · exact .pure trivial

private theorem reads_closedBlock (hg : g.Reads k g') (blocks : BlockHeads) :
    Reads (fun o => o.isSome = true) k (closedBlock g blocks) (closedBlock g' blocks) (IfGiven Any) := by
  refine .bind (reads_accept? rfl) fun name _ => .accept (j := k) nofun (by omega) ?_ ?_
  · refine .bind (reads_expect nofun) fun _ _ => .bind (reads_typeList hg) fun params _ => ?_
    exact .bind (reads_expect nofun) fun _ _ => .pure trivial
  · exact .bindMoved (reads_fail _) fun _ _ => .pure trivial

theorem turns_blockHead? (hg : g.Reads k g') (blocks : BlockHeads) :
    Turns k (blockHead? g blocks) (blockHead? g' blocks) Any := by
  rw [blockHead?_eq, blockHead?_eq]
  refine .guarded (.bind reads_hadError fun b _ => ?_) fun c hc => ?_
  · split
    · exact .absent trivial
    · exact .bind (reads_innermostBlock blocks) fun _ _ => reads_closedBlock hg _
  · rw [result_bind_ok (result_hadError c), hc, Bool.or_true, if_pos rfl, result_pure]

private theorem reads_blockType (hg : g.Reads k g') (base : TypeExpr) :
    Reads Never k (blockType g base) (blockType g' base) Any := by
  unfold blockType
  refine .bind (reads_expect nofun) fun _ _ => .bind (reads_expect nofun) fun _ _ => ?_
  exact .bind (reads_extend trivial fun b _ => turns_blockHead? hg b) fun _ _ => .pure trivial

/-- What comes after a type may be less deep. -/
private theorem Reads.afterType {β : Type} {moves : β → Prop} {F F' : Option TypeExpr → Parse β} {Q : β → Prop}
    (hg : g.Reads k g') (hs : ∀ t, Reads Never k (F (some t)) (F' (some t)) Q)
    (hn : Reads moves (k + 1) (F none) (F' none) Q) :
    Reads moves (k + 1) (Parse.type? g >>= F) (Parse.type? g' >>= F') Q := by
  unfold Parse.type? typeName?
  simp only [bind_assoc]
  refine .look fun c => .acceptOption (j := k) (Nat.le_refl _) (fun t => ?_) (by simpa only [pure_bind] using hn) rfl
  simp only [bind_assoc]
  refine .bind (reads_accept nofun) fun _ _ => .bind reads_opensBlockType fun b _ => ?_
  split
  · simp only [bind_assoc, pure_bind]
    exact .bind (reads_blockType hg _) fun t _ => hs t
  · simpa only [pure_bind] using hs _

private theorem reads_type? (hg : g.Reads k g') :
    Reads (fun o => o.isSome = true) (k + 1) (Parse.type? g) (Parse.type? g') Any := by
  have h : Reads (fun o : Option TypeExpr => o.isSome = true) (k + 1) (Parse.type? g >>= Pure.pure)
      (Parse.type? g' >>= Pure.pure) Any :=
    .afterType hg (fun _ => .pure trivial) (.absent trivial)
  rwa [bind_pure, bind_pure] at h

private theorem reads_neededType (hg : g.Reads k g') (fault : SyntaxFault) :
    Reads Never k (neededType g fault) (neededType g' fault) Any := by
  refine .bind hg.type? fun o _ => ?_
  cases o with
  | some type => exact .pure trivial
  | none => exact .bind (reads_fail _) fun _ _ => .pure trivial

/-! ### Expressions -/

private theorem reads_listBefore (hg : g.Reads k g') (closing : Symbol) :
    Reads Never k (listBefore g closing) (listBefore g' closing) fun l => ∀ e ∈ l, e.AsParsed := by
  refine .bind (reads_check _) fun b _ => ?_
  split
  · exact .pure (List.forall_mem_nil _)
  · exact reads_commaSeparated hg.expression.never

private theorem reads_arguments (hg : g.Reads k g') {closing : Symbol} :
    Reads Never k (arguments g closing) (arguments g' closing) fun l => ∀ e ∈ l, e.AsParsed := by
  rw [arguments_eq, arguments_eq]
  exact .bind (reads_listBefore hg closing) fun _ h => .bind (reads_expect nofun) fun _ _ => .pure h

theorem reads_primary (hg : g.Reads k g') : Reads Any (k + 1) (primary g) (primary g') Expr.AsParsed := by
  unfold primary
  refine .peek fun c hc hk => ?_
  split
  -- a number is the only token that can stop the parser
  case h_1 hkind =>
    have hne : c.current.kind ≠ .eof := by simp [hkind]
    cases hread : Number.read? c.current.text with
    | some x => exact .advance hc hk hne (.pure (List.forall_mem_cons.2 ⟨trivial, by simp⟩))
    | none =>
      have hmem : c.current ∈ c.rest := (Cursor.rest_eq_cons hc hne).1 ▸ List.mem_cons_self
      have hl := (Cursor.later_advance hc hne).1
      exact ⟨rfl, .inr ⟨_, c.advance, rfl, hl.suffix, hl.unfinished, c.current, hmem, hkind, rfl, hread⟩⟩
  case h_3 hkind =>
    refine .advance hc hk (by simp [hkind]) (.bind hg.expression fun e he => ?_)
    exact .bind (reads_expect nofun) fun _ _ => .pure (List.forall_mem_cons.2 ⟨trivial, he⟩)
  case h_4 hkind =>
    refine .advance hc hk (by simp [hkind]) (.bind (reads_arguments hg) fun l hl => .pure ?_)
    exact List.forall_mem_cons.2 ⟨trivial, Expr.forall_nodesList hl⟩
  case h_12 =>
    exact Reads.bindMoved (reads_fail _) (fun _ _ => .pure (List.forall_mem_cons.2 ⟨trivial, by simp⟩)) c hc hk
  -- the other tokens are expressions by themselves
  all_goals
    rename_i hkind
    exact .advance hc hk (by simp [hkind]) (.pure (List.forall_mem_cons.2
      ⟨by simp [Node.AsParsed, reference], by simp⟩))

/-- A turn that is not begun before the closing token, at the end or after an error. -/
private theorem turns_upTo {α : Type} {kind : Kind} {p p' : Parse (Option α)} {P : α → Prop}
    (h : Reads (fun o => o.isSome = true) k p p' (IfGiven P)) :
    Turns k (do if (← check kind) || (← atEnd) || (← hadError) then return none else p)
      (do if (← check kind) || (← atEnd) || (← hadError) then return none else p') P := by
  refine .guarded ?_ fun c hc => ?_
  · refine .bind (reads_check _) fun _ _ => .bind reads_atEnd fun _ _ => .bind reads_hadError fun _ _ => ?_
    split
    · exact .absent trivial
    · exact h
  · rw [result_bind_ok (result_check _ c), result_bind_ok (result_atEnd c), result_bind_ok (result_hadError c), hc,
      Bool.or_true, if_pos rfl, result_pure]

theorem turns_messageArgument? (hg : g.Reads k g') :
    Turns k (messageArgument? g) (messageArgument? g') Expr.AsParsed := by
  refine turns_upTo (.bindMoved (reads_expect nofun) fun _ _ => .bind (reads_expect nofun) fun _ _ => ?_)
  exact .bind hg.expression fun e he => .pure he

private theorem reads_messageArguments (hg : g.Reads k g') :
    Reads Never k (messageArguments g) (messageArguments g') fun l => ∀ e ∈ l, e.AsParsed := by
  refine .accept (j := k) nofun (by omega) ?_ (.pure (List.forall_mem_nil _))
  refine .bind hg.expression fun first hf => .bind (reads_repeated (turns_messageArgument? hg)) fun l hl => ?_
  exact .pure (List.forall_mem_cons.2 ⟨hf, hl⟩)

theorem reads_messageSend (hg : g.Reads k g') :
    Reads Any (k + 1) (messageSend g) (messageSend g') Expr.AsParsed := by
  rw [messageSend_eq, messageSend_eq]
  refine .accept nofun (Nat.le_refl _) ?_ (reads_primary hg)
  refine .bind hg.factor fun receiver hr => .bind (reads_expect nofun) fun selector _ => ?_
  refine .bind (reads_messageArguments hg) fun args ha => .bind (reads_expect nofun) fun _ _ => .pure ?_
  have hget : (Expr.get receiver selector.toName).AsParsed := List.forall_mem_cons.2 ⟨trivial, hr⟩
  exact List.forall_mem_cons.2 ⟨trivial, List.forall_mem_append.2 ⟨hget, Expr.forall_nodesList ha⟩⟩

private theorem turns_callSuffix? (hg : g.Reads k g') {e : Expr} (he : e.AsParsed) :
    Turns (k + 1) (callSuffix? g e) (callSuffix? g' e) Expr.AsParsed := by
  unfold callSuffix?
  refine .accept nofun (Nat.le_refl _) ?_ (.accept nofun (Nat.le_refl _) ?_ .absent)
  · refine .bind (reads_arguments hg) fun l hl => .pure ?_
    exact List.forall_mem_cons.2 ⟨trivial, List.forall_mem_append.2 ⟨he, Expr.forall_nodesList hl⟩⟩
  · refine .bind (reads_expect nofun) fun _ _ => .pure ?_
    exact List.forall_mem_cons.2 ⟨trivial, he⟩

theorem reads_call (hg : g.Reads k g') : Reads Any (k + 1) (call g) (call g') Expr.AsParsed :=
  .bindMoved (reads_messageSend hg) fun _ he => reads_extend he fun _ he => turns_callSuffix? hg he

private theorem reads_param? (hg : g.Reads k g') : Reads Never k (param? g) (param? g') Any := by
  unfold param?
  refine .bind hg.type? fun o _ => ?_
  split
  · exact .pure trivial
  · split
    · exact .pure trivial
    · refine .bind (reads_accept? rfl) fun o _ => ?_
      split
      · exact .pure trivial
      · exact .pure trivial
      · exact .bind (reads_expect nofun) fun _ _ => .pure trivial

private theorem reads_paramList (hg : g.Reads k g') : Reads Never k (paramList g) (paramList g') Any := by
  unfold paramList
  refine .bind (reads_check _) fun b _ => ?_
  split
  · exact .pure trivial
  · exact .bind (reads_commaSeparated (reads_param? hg)) fun _ _ => .pure trivial

theorem turns_blockStatement? (hg : g.Reads k g') :
    Turns k (blockStatement? g) (blockStatement? g') Stmt.AsParsed :=
  turns_upTo (.bindMoved hg.start fun _ hs => .pure hs)

private theorem reads_blockStatements (hg : g.Reads k g') :
    Reads Never k (blockStatements g) (blockStatements g') fun l => ∀ s ∈ l, s.AsParsed :=
  .bind (reads_repeated (turns_blockStatement? hg)) fun _ hl => .bind (reads_expect nofun) fun _ _ => .pure hl

private theorem reads_blockParams (hg : g.Reads k g') : Reads Never k (blockParams g) (blockParams g') Any := by
  refine .accept (j := k) nofun (by omega) ?_ (.pure trivial)
  exact .bind (reads_paramList hg) fun _ _ => .bind (reads_expect nofun) fun _ _ => .pure trivial

theorem reads_blockLiteral (hg : g.Reads k g') :
    Reads Any (k + 1) (blockLiteral g) (blockLiteral g') Expr.AsParsed := by
  rw [blockLiteral_eq, blockLiteral_eq]
  refine .accept nofun (Nat.le_refl _) ?_ (reads_call hg)
  refine .bind hg.type? fun returns _ => .bind (reads_blockParams hg) fun params _ => ?_
  refine .bind (reads_expect nofun) fun _ _ => .bind (reads_blockStatements hg) fun b hb => .pure ?_
  exact List.forall_mem_cons.2 ⟨trivial, Stmt.forall_nodesList hb⟩

theorem reads_unary (hg : g.Reads k g') : Reads Any (k + 1) (unary g) (unary g') Expr.AsParsed := by
  unfold unary
  refine .peek fun c hc hk => ?_
  split
  · rename_i op hop
    have hne : c.current.kind ≠ .eof := by
      intro h; rw [h] at hop; cases hop
    exact .advance hc hk hne (.bind hg.unary fun e he => .pure (List.forall_mem_cons.2 ⟨trivial, he⟩))
  · exact reads_blockLiteral hg c hc hk

private theorem turns_indexSuffix? (hg : g.Reads k g') {e : Expr} (he : e.AsParsed) :
    Turns (k + 1) (indexSuffix? g e) (indexSuffix? g' e) Expr.AsParsed := by
  unfold indexSuffix?
  refine .accept nofun (Nat.le_refl _) ?_ .absent
  refine .bind hg.expression fun place hp => .bind (reads_expect nofun) fun _ _ => .pure ?_
  exact List.forall_mem_cons.2 ⟨trivial, List.forall_mem_append.2 ⟨he, hp⟩⟩

private theorem reads_index (hg : g.Reads k g') : Reads Any (k + 1) (index g) (index g') Expr.AsParsed :=
  .bindMoved (reads_unary hg) fun _ he => reads_extend he fun _ he => turns_indexSuffix? hg he

/-- A level of operators reads on if its operands do. -/
private theorem reads_binaryLevel {operand operand' : Parse Expr} {op? : Kind → Option BinaryOp}
    (h : Reads Any (k + 1) operand operand' Expr.AsParsed) (hop : op? .eof = none) :
    Reads Any (k + 1) (binaryLevel operand op?) (binaryLevel operand' op?) Expr.AsParsed := by
  refine .bindMoved h fun e he => reads_extend he fun e he => ?_
  unfold binarySuffix?
  refine .peek fun c hc hk => ?_
  split
  · rename_i op hkind
    have hne : c.current.kind ≠ .eof := by
      intro h; rw [h, hop] at hkind; cases hkind
    refine .advance hc hk hne (.bind (h.mono (Nat.le_succ k)) fun r hr => .pure ?_)
    exact List.forall_mem_cons.2 ⟨trivial, List.forall_mem_append.2 ⟨he, hr⟩⟩
  · exact Turns.absent c hc hk

private theorem reads_logicalLevel {operand operand' : Parse Expr} {op : LogicOp}
    (h : Reads Any (k + 1) operand operand' Expr.AsParsed) :
    Reads Any (k + 1) (logicalLevel operand op) (logicalLevel operand' op) Expr.AsParsed := by
  refine .bindMoved h fun e he => reads_extend he fun e he => ?_
  unfold logicalSuffix?
  refine .accept nofun (Nat.le_refl _) (.bind (h.mono (Nat.le_succ k)) fun r hr => ?_) .absent
  refine .pure ?_
  exact List.forall_mem_cons.2 ⟨trivial, List.forall_mem_append.2 ⟨he, hr⟩⟩

private theorem reads_factor (hg : g.Reads k g') : Reads Any (k + 1) (factor g) (factor g') Expr.AsParsed :=
  reads_binaryLevel (reads_index hg) rfl

private theorem reads_term (hg : g.Reads k g') : Reads Any (k + 1) (term g) (term g') Expr.AsParsed :=
  reads_binaryLevel (reads_factor hg) rfl

private theorem reads_comparison (hg : g.Reads k g') :
    Reads Any (k + 1) (comparison g) (comparison g') Expr.AsParsed :=
  reads_binaryLevel (reads_term hg) rfl

private theorem reads_equality (hg : g.Reads k g') : Reads Any (k + 1) (equality g) (equality g') Expr.AsParsed :=
  reads_binaryLevel (reads_comparison hg) rfl

private theorem reads_conjunction (hg : g.Reads k g') :
    Reads Any (k + 1) (conjunction g) (conjunction g') Expr.AsParsed :=
  reads_logicalLevel (reads_equality hg)

private theorem reads_disjunction (hg : g.Reads k g') :
    Reads Any (k + 1) (disjunction g) (disjunction g') Expr.AsParsed :=
  reads_logicalLevel (reads_conjunction hg)

/-- What is assigned to must be a variable, a member or an element; anything else is noted as an error. -/
private theorem reads_assignTo {target value : Expr} {op : AssignOp} {pos : Pos} {fault : SyntaxFault}
    (ht : target.AsParsed) (hv : value.AsParsed) :
    Reads Never k (assignTo target op pos value fault) (assignTo target op pos value fault) Expr.AsParsed := by
  unfold assignTo
  split
  · have href := (List.forall_mem_cons.1 ht).1
    exact .pure (List.forall_mem_cons.2 ⟨href, hv⟩)
  · have hobj := (List.forall_mem_cons.1 ht).2
    exact .pure (List.forall_mem_cons.2 ⟨trivial, List.forall_mem_append.2 ⟨hobj, hv⟩⟩)
  · have hobj := (List.forall_mem_cons.1 ht).2
    exact .pure (List.forall_mem_cons.2 ⟨trivial, List.forall_mem_append.2 ⟨hobj, hv⟩⟩)
  · exact .bind (reads_fail _) fun _ _ => .pure (List.forall_mem_cons.2 ⟨trivial, by simp⟩)

private theorem reads_increment (hg : g.Reads k g') :
    Reads Any (k + 1) (increment g) (increment g') Expr.AsParsed := by
  unfold increment
  refine .bindMoved (reads_disjunction hg) fun target ht => .peek fun c hc hk => ?_
  have hone : (Expr.literal (.number 1)).AsParsed := List.forall_mem_cons.2 ⟨trivial, by simp⟩
  exact Reads.accept (by decide) (Nat.le_refl _) (reads_assignTo ht hone) (.pure ht) c hc hk

private theorem reads_assignment (hg : g.Reads k g') :
    Reads Any (k + 1) (assignment g) (assignment g') Expr.AsParsed := by
  unfold assignment
  refine .bindMoved (reads_increment hg) fun target ht => .peek fun c hc hk => ?_
  split
  · rename_i op hop
    have hne : c.current.kind ≠ .eof := by
      intro h; rw [h] at hop; cases hop
    exact .advance hc hk hne (.bind hg.assignment fun value hv => reads_assignTo ht hv)
  · exact .pure hc id ht

theorem reads_expression (hg : g.Reads k g') :
    Reads Any (k + 1) (expression g) (expression g') Expr.AsParsed := by
  unfold expression
  refine .bindMoved (reads_assignment hg) fun condition hc => .accept nofun (Nat.le_refl _) ?_ (.pure hc)
  refine .bind hg.expression fun yes hy => .bind (reads_expect nofun) fun _ _ => ?_
  refine .bind hg.expression fun no hn => .pure ?_
  exact List.forall_mem_cons.2
    ⟨trivial, List.forall_mem_append.2 ⟨List.forall_mem_append.2 ⟨hc, hy⟩, hn⟩⟩

/-! ### Statements -/

private theorem reads_initialValue (hg : g.Reads k g') :
    Reads Never k (initialValue g) (initialValue g') fun o => ∀ e ∈ o, e.AsParsed :=
  .accept (j := k) nofun (by omega) (.given hg.expression) (.pure nofun)

private theorem reads_varDeclaration (hg : g.Reads k g') (name : Name) (type : TypeExpr) :
    Reads Never k (varDeclaration g name type) (varDeclaration g' name type) VarDecl.AsParsed := by
  rw [varDeclaration_eq, varDeclaration_eq]
  refine .bind (reads_initialValue hg) fun init h => .bind (reads_expect nofun) fun _ _ => ?_
  exact .pure (Expr.forall_nodesOption h)

private theorem reads_functionDeclaration (hg : g.Reads k g') (name : Name) :
    Reads Never k (functionDeclaration g name) (functionDeclaration g' name) FunctionDecl.AsParsed := by
  unfold functionDeclaration
  refine .bind (reads_paramList hg) fun params _ => .bind (reads_expect nofun) fun _ _ => ?_
  refine .accept (j := k) nofun (by omega) (.pure (Stmt.forall_nodesList (by simp))) ?_
  refine .bind (reads_expect nofun) fun _ _ => .bind (reads_blockStatements hg) fun body hb => .pure ?_
  exact Stmt.forall_nodesList hb

private theorem reads_declaredName (type : TypeExpr) : Reads Never k (declaredName type) (declaredName type) Any := by
  unfold declaredName
  split
  · exact .pure trivial
  · exact .bind (reads_expectOr (by decide)) fun _ _ => .pure trivial
  · exact .bind (reads_expect nofun) fun _ _ => .pure trivial

private theorem reads_declaration (hg : g.Reads k g') (type : TypeExpr) :
    Reads Never k (declaration g type) (declaration g' type) fun s => s.AsParsed ∧ s.isDeclaration = true := by
  unfold declaration
  refine .bind (reads_declaredName type) fun name _ => .accept (j := k) nofun (by omega) ?_ ?_
  · refine .bind (reads_functionDeclaration hg name) fun d hd => .pure ⟨?_, rfl⟩
    exact List.forall_mem_cons.2 ⟨trivial, hd⟩
  · refine .bind (reads_varDeclaration hg name type) fun d hd => .pure ⟨?_, rfl⟩
    exact List.forall_mem_cons.2 ⟨trivial, hd⟩

private theorem reads_expressionStatement (hg : g.Reads k g') :
    Reads Any (k + 1) (expressionStatement g) (expressionStatement g')
      fun s => s.AsParsed ∧ ∃ e, s = .expr e := by
  unfold expressionStatement
  refine .bindMoved (reads_expression hg) fun e he => .bind (reads_accept nofun) fun _ _ => .pure ⟨?_, e, rfl⟩
  exact List.forall_mem_cons.2 ⟨trivial, he⟩

private theorem reads_block (hg : g.Reads k g') :
    Reads Never k (block g) (block g') fun s => s.AsParsed ∧ s.isDeclaration = false := by
  unfold block
  refine .bind (reads_blockStatements hg) fun body hb => .bind (reads_accept nofun) fun _ _ => .pure ⟨?_, rfl⟩
  exact List.forall_mem_cons.2 ⟨trivial, Stmt.forall_nodesList hb⟩

private theorem reads_body (hg : g.Reads k g') :
    Reads Never k (body g) (body g') fun s => s.AsParsed ∧ s.isDeclaration = false :=
  .accept (j := k) nofun (by omega) (reads_block hg) hg.statement.never

private theorem reads_condition (hg : g.Reads k g') :
    Reads Never k (condition g) (condition g') Expr.AsParsed :=
  .bind (reads_expect nofun) fun _ _ => .bind hg.expression fun _ he => .bind (reads_expect nofun) fun _ _ => .pure he

private theorem reads_elseBranch (hg : g.Reads k g') :
    Reads Never k (elseBranch g) (elseBranch g') fun o => ∀ s ∈ o, s.AsParsed ∧ s.isDeclaration = false :=
  .accept (j := k) nofun (by omega) (.given (reads_body hg)) (.pure nofun)

private theorem reads_ifStatement (hg : g.Reads k g') :
    Reads Never k (ifStatement g) (ifStatement g') fun s => s.AsParsed ∧ s.isDeclaration = false := by
  rw [ifStatement_eq, ifStatement_eq]
  refine .bind (reads_condition hg) fun e he => .bind (reads_body hg) fun yes hy => ?_
  refine .bind (reads_elseBranch hg) fun no hn => .pure ⟨?_, rfl⟩
  have hno := Stmt.forall_nodesOption fun s hs => (hn s hs).1
  exact List.forall_mem_cons.2 ⟨⟨hy.2, fun s hs => (hn s hs).2⟩,
    List.forall_mem_append.2 ⟨List.forall_mem_append.2 ⟨he, hy.1⟩, hno⟩⟩

private theorem reads_whileStatement (hg : g.Reads k g') :
    Reads Never k (whileStatement g) (whileStatement g') fun s => s.AsParsed ∧ s.isDeclaration = false := by
  unfold whileStatement
  refine .bind (reads_condition hg) fun e he => .bind (reads_body hg) fun b hb => .pure ⟨?_, rfl⟩
  exact List.forall_mem_cons.2 ⟨hb.2, List.forall_mem_append.2 ⟨he, hb.1⟩⟩

private theorem reads_forInit (hg : g.Reads k g') :
    Reads Never k (forInit g) (forInit g')
      (IfGiven fun s => s.AsParsed ∧ (s.isDeclaration = true ∨ ∃ e, s = .expr e)) := by
  unfold forInit
  refine .accept (j := k) nofun (by omega) (.pure trivial) (.bind hg.type? fun o _ => ?_)
  split
  · exact .bind (reads_declaration hg _) fun s hs => .pure ⟨hs.1, .inl hs.2⟩
  · refine .bind ((reads_expressionStatement hg).mono (Nat.le_succ k)) fun s hs => .pure ⟨hs.1, .inr hs.2⟩

private theorem reads_forCondition (hg : g.Reads k g') :
    Reads Never k (forCondition g) (forCondition g') (IfGiven Expr.AsParsed) := by
  unfold forCondition
  refine .accept (j := k) nofun (by omega) (.pure trivial) ?_
  exact .bind hg.expression fun e he => .bind (reads_expect nofun) fun _ _ => .pure he

private theorem reads_expressionBefore (hg : g.Reads k g') (closing : Symbol) :
    Reads Never k (expressionBefore g closing) (expressionBefore g' closing) fun o => ∀ e ∈ o, e.AsParsed := by
  refine .bind (reads_check _) fun b _ => ?_
  split
  · exact .pure nofun
  · exact .given hg.expression

private theorem reads_forStatement (hg : g.Reads k g') :
    Reads Never k (forStatement g) (forStatement g') fun s => s.AsParsed ∧ s.isDeclaration = false := by
  rw [forStatement_eq, forStatement_eq]
  refine .bind (reads_expect nofun) fun _ _ => .bind (reads_forInit hg) fun init hi => ?_
  refine .bind (reads_forCondition hg) fun c hc => .bind (reads_expressionBefore hg _) fun step hs => ?_
  refine .bind (reads_expect nofun) fun _ _ => .bind (reads_body hg) fun b hb => .pure ⟨?_, rfl⟩
  have hin : ∀ s ∈ init, s.AsParsed ∧ (s.isDeclaration = true ∨ ∃ e, s = .expr e) := by
    rintro s rfl; exact hi
  have hcn : ∀ e ∈ c, e.AsParsed := by
    rintro e rfl; exact hc
  refine List.forall_mem_cons.2 ⟨⟨fun s h => (hin s h).2, hb.2⟩, List.forall_mem_append.2 ⟨?_, hb.1⟩⟩
  refine List.forall_mem_append.2 ⟨List.forall_mem_append.2 ⟨?_, Expr.forall_nodesOption hcn⟩,
    Expr.forall_nodesOption hs⟩
  exact Stmt.forall_nodesOption fun s h => (hin s h).1

private theorem reads_returnStatement (hg : g.Reads k g') :
    Reads Never k (returnStatement g) (returnStatement g') fun s => s.AsParsed ∧ s.isDeclaration = false := by
  rw [returnStatement_eq, returnStatement_eq]
  refine .bind (reads_expressionBefore hg _) fun value h => .bind (reads_expect nofun) fun _ _ => .pure ⟨?_, rfl⟩
  exact List.forall_mem_cons.2 ⟨trivial, Expr.forall_nodesOption h⟩

private theorem reads_printStatement (hg : g.Reads k g') :
    Reads Never k (printStatement g) (printStatement g') fun s => s.AsParsed ∧ s.isDeclaration = false := by
  refine .bind hg.expression fun e he => .bind (reads_expect nofun) fun _ _ => .pure ⟨?_, rfl⟩
  exact List.forall_mem_cons.2 ⟨trivial, he⟩

private theorem reads_typedefName (type : TypeExpr) : Reads Never k (typedefName type) (typedefName type) Any := by
  unfold typedefName
  split
  · exact .pure trivial
  · exact .bind (reads_expect nofun) fun _ _ => .pure trivial

private theorem asParsed_typeDef (name : Name) (type : TypeExpr) :
    (Stmt.typeDef name type).AsParsed ∧ (Stmt.typeDef name type).isDeclaration = false :=
  ⟨List.forall_mem_cons.2 ⟨trivial, List.forall_mem_nil _⟩, rfl⟩

private theorem reads_typedefRest (type : TypeExpr) :
    Reads Never k (typedefRest type) (typedefRest type) fun s => s.AsParsed ∧ s.isDeclaration = false := by
  -- a new type name changes neither the tokens nor the error
  have register : ∀ name : String, Reads Never k
      (modify fun c : Cursor => { c with typedefs := c.typedefs.add name })
      (modify fun c : Cursor => { c with typedefs := c.typedefs.add name }) Any :=
    fun name c hc _ => ⟨rfl, .inl ⟨(), _, rfl, ⟨⟨List.suffix_refl _, hc, .inl rfl⟩, rfl⟩, False.elim, trivial⟩⟩
  refine .bind (reads_typedefName type) fun name _ => .bind (reads_expect nofun) fun _ _ => ?_
  exact .bind (register _) fun _ _ => .pure (asParsed_typeDef _ _)

private theorem reads_typedefStatement (hg : g.Reads k g') :
    Reads Never k (typedefStatement g) (typedefStatement g') fun s => s.AsParsed ∧ s.isDeclaration = false := by
  rw [typedefStatement_eq, typedefStatement_eq]
  refine .bind hg.type? fun o _ => ?_
  cases o with
  | none => exact .bind (reads_fail _) fun _ _ => .bind (reads_expect nofun) fun _ _ => .pure (asParsed_typeDef _ _)
  | some type => exact reads_typedefRest type

private theorem reads_selectorPart (hg : g.Reads k g') : Reads Any k (selectorPart g) (selectorPart g') Any := by
  rw [selectorPart_eq, selectorPart_eq]
  refine .bindMoved (reads_expect nofun) fun _ _ => .bind (reads_neededType hg _) fun _ _ => ?_
  exact .bind (reads_expect nofun) fun _ _ => .bind (reads_expect nofun) fun _ _ => .pure trivial

theorem turns_selectorSuffix? (hg : g.Reads k g') : Turns k (selectorSuffix? g) (selectorSuffix? g') Any := by
  unfold selectorSuffix?
  refine .accept (j := k) nofun (by omega) (.bind (reads_expect nofun) fun _ _ => ?_) .absent
  exact .bind (reads_selectorPart hg) fun _ _ => .pure trivial

private theorem reads_methodParams (hg : g.Reads k g') : Reads Never k (methodParams g) (methodParams g') Any := by
  refine .accept (j := k) nofun (by omega) ?_ (.pure trivial)
  exact .bind (reads_selectorPart hg) fun _ _ => .bind (reads_repeated (turns_selectorSuffix? hg)) fun _ _ =>
    .pure trivial

private theorem reads_methodBody (hg : g.Reads k g') :
    Reads Never k (methodBody g) (methodBody g') fun l => ∀ s ∈ l, s.AsParsed := by
  refine .accept (j := k) nofun (by omega) (reads_blockStatements hg) ?_
  exact .bind (reads_expect nofun) fun _ _ => .pure (List.forall_mem_nil _)

private theorem reads_method (hg : g.Reads k g') (isStatic : Bool) :
    Reads Any k (method g isStatic) (method g' isStatic) FunctionDecl.AsParsed := by
  rw [method_eq, method_eq]
  refine .bindMoved (reads_selectorPart hg) fun head _ => .bind (reads_methodParams hg) fun params _ => ?_
  exact .bind (reads_methodBody hg) fun body hb => .pure (Stmt.forall_nodesList hb)

private theorem reads_propertyAttributes : Reads Never k propertyAttributes propertyAttributes Any := by
  unfold propertyAttributes
  refine .accept (j := k) nofun (by omega) ?_ (.pure trivial)
  refine .bind (reads_commaSeparated (reads_accept? rfl).never) fun _ _ => ?_
  exact .bind (reads_expect nofun) fun _ _ => .pure trivial

private theorem reads_property (hg : g.Reads k g') : Reads Never k (property g) (property g') VarDecl.AsParsed := by
  rw [property_eq, property_eq]
  refine .bind reads_propertyAttributes fun _ _ => .bind (reads_neededType hg _) fun type _ => ?_
  refine .bind (reads_accept nofun) fun _ _ => .bind (reads_expectOr (by decide)) fun name _ => ?_
  exact reads_varDeclaration hg _ _

/-- A turn of a loop over the members of a class. -/
private theorem turns_inSection {α : Type} {p p' : Parse (Option α)} {P : α → Prop}
    (h : Reads (fun o => o.isSome = true) k p p' (IfGiven P)) :
    Turns k (inSection >>= fun b => if b = true then p else Pure.pure none)
      (inSection >>= fun b => if b = true then p' else Pure.pure none) P := by
  refine .guarded ?_ fun c hc => ?_
  · have hsection : Reads Never k inSection inSection Any :=
      .bind (reads_check _) fun _ _ => .bind reads_atEnd fun _ _ => .bind reads_hadError fun _ _ => .pure trivial
    refine .bind hsection fun b _ => ?_
    split
    · exact h
    · exact .absent trivial
  · have hsection : inSection.result c = (.ok false, c) := by
      unfold inSection
      rw [result_bind_ok (result_check _ c), result_bind_ok (result_atEnd c), result_bind_ok (result_hadError c), hc,
        Bool.or_true]
      rfl
    rw [result_bind_ok hsection, if_neg Bool.false_ne_true, result_pure]

private theorem reads_methodSign? : Reads Never k methodSign? methodSign? Any :=
  .bind (reads_accept? rfl) fun _ _ => .pure trivial

/-- A member of a class as the parser builds it. -/
def MemberAsParsed (m : FunctionDecl ⊕ VarDecl) : Prop :=
  (∀ d, m = .inl d → d.AsParsed) ∧ ∀ d, m = .inr d → d.AsParsed

theorem turns_interfaceMember? (hg : g.Reads k g') :
    Turns k (interfaceMember? g) (interfaceMember? g') fun o => ∀ m ∈ o, MemberAsParsed m := by
  refine turns_inSection (.bind reads_methodSign? fun o _ => ?_)
  split
  · refine .bindMoved (reads_method hg _) fun d hd => .pure ?_
    rintro _ ⟨⟩
    exact ⟨by rintro _ ⟨⟩; exact hd, nofun⟩
  · refine .accept (j := k) nofun (by omega) ?_ (.bindMoved (reads_fail _) fun _ _ => .pure nofun)
    refine .bind (reads_property hg) fun d hd => .pure ?_
    rintro _ ⟨⟩
    exact ⟨nofun, by rintro _ ⟨⟩; exact hd⟩

theorem turns_implementationMember? (hg : g.Reads k g') :
    Turns k (implementationMember? g) (implementationMember? g') fun o => ∀ d ∈ o, d.AsParsed := by
  refine turns_inSection (.bind reads_methodSign? fun o _ => ?_)
  split
  · refine .bindMoved (reads_method hg _) fun d hd => .pure ?_
    rintro _ ⟨⟩
    exact hd
  · exact .bindMoved (reads_fail _) fun _ _ => .pure nofun

/-- What the turns of a loop have given. -/
private theorem reads_given {α : Type} {item item' : Parse (Option (Option α))} {P : α → Prop}
    (h : Turns k item item' fun o => ∀ a ∈ o, P a) :
    Reads Never k (repeated item >>= fun l => Pure.pure (l.filterMap id))
      (repeated item' >>= fun l => Pure.pure (l.filterMap id)) fun l => ∀ a ∈ l, P a := by
  refine .bind (reads_repeated h) fun l hl => .pure fun a ha => ?_
  obtain ⟨o, ho, hoa⟩ := List.mem_filterMap.1 ha
  exact hl o ho a hoa

private theorem reads_superclassName :
    Reads Never k superclassName superclassName fun o => ∀ ref ∈ o, ref.depth = none := by
  refine .accept (j := k) nofun (by omega) (.bind (reads_expect nofun) fun t _ => .pure ?_) (.pure nofun)
  rintro ref ⟨⟩
  rfl

private theorem reads_classDeclaration (hg : g.Reads k g') :
    Reads Never k (classDeclaration g) (classDeclaration g') fun s => s.AsParsed ∧ s.isDeclaration = false := by
  rw [classDeclaration_eq, classDeclaration_eq]
  refine .bind (reads_expect nofun) fun name _ => .bind reads_superclassName fun superclass hsuper => ?_
  refine .bind (reads_given (turns_interfaceMember? hg)) fun members hm => ?_
  refine .bind (reads_expect nofun) fun _ _ => .pure ⟨?_, rfl⟩
  refine List.forall_mem_cons.2 ⟨trivial, List.forall_mem_append.2 ⟨?_, List.forall_mem_append.2 ⟨?_, ?_⟩⟩⟩
  · intro n hn
    obtain ⟨ref, href, rfl⟩ := List.mem_map.1 hn
    exact hsuper ref (Option.mem_toList.1 href)
  · refine FunctionDecl.forall_nodesList fun d hd => ?_
    obtain ⟨m, hmem, hm'⟩ := List.mem_filterMap.1 hd
    exact (hm m hmem).1 d (Sum.getLeft?_eq_some_iff.1 hm')
  · refine VarDecl.forall_nodesList fun d hd => ?_
    obtain ⟨m, hmem, hm'⟩ := List.mem_filterMap.1 hd
    exact (hm m hmem).2 d (Sum.getRight?_eq_some_iff.1 hm')

private theorem reads_category : Reads Never k category category Any := by
  unfold category
  refine .accept (j := k) nofun (by omega) ?_ (.pure trivial)
  refine .bind (reads_accept nofun) fun _ _ => .bind (reads_accept nofun) fun _ _ => ?_
  exact .bind (reads_expect nofun) fun _ _ => .pure trivial

private theorem reads_classImplementation (hg : g.Reads k g') :
    Reads Never k (classImplementation g) (classImplementation g')
      fun s => s.AsParsed ∧ s.isDeclaration = false := by
  rw [classImplementation_eq, classImplementation_eq]
  refine .bind (reads_expect nofun) fun name _ => .bind reads_category fun _ _ => ?_
  refine .bind (reads_given (turns_implementationMember? hg)) fun methods hm => ?_
  refine .bind (reads_expect nofun) fun _ _ => .pure ⟨?_, rfl⟩
  exact List.forall_mem_cons.2 ⟨trivial, FunctionDecl.forall_nodesList hm⟩

private theorem reads_statement (hg : g.Reads k g') :
    Reads Any (k + 1) (statement g) (statement g') fun s => s.AsParsed ∧ s.isDeclaration = false := by
  unfold statement
  refine .peek fun c hc hk => ?_
  split
  case h_1 hkind => exact .advance hc hk (by simp [hkind]) (reads_block hg)
  case h_2 hkind => exact .advance hc hk (by simp [hkind]) (reads_ifStatement hg)
  case h_3 hkind => exact .advance hc hk (by simp [hkind]) (reads_returnStatement hg)
  case h_4 hkind => exact .advance hc hk (by simp [hkind]) (reads_whileStatement hg)
  case h_5 hkind => exact .advance hc hk (by simp [hkind]) (reads_forStatement hg)
  case h_6 hkind => exact .advance hc hk (by simp [hkind]) (reads_printStatement hg)
  case h_7 hkind => exact .advance hc hk (by simp [hkind]) (reads_classDeclaration hg)
  case h_8 hkind => exact .advance hc hk (by simp [hkind]) (reads_classImplementation hg)
  case h_9 hkind => exact .advance hc hk (by simp [hkind]) (reads_typedefStatement hg)
  case h_10 =>
    refine (reads_expressionStatement hg c hc hk).weaken (fun _ h => h) ?_
    rintro _ ⟨h, e, rfl⟩
    exact ⟨h, rfl⟩

private theorem reads_start (hg : g.Reads k g') : Reads Any (k + 1) (start g) (start g') Stmt.AsParsed :=
  .afterType hg (fun t => (reads_declaration hg t).weaken (fun _ h => h) fun _ h => h.1)
    ((reads_statement hg).weaken (fun _ h => h) fun _ h => h.1)

end Parse

/-- With at most `k` tokens left all parsers of nesting `k` or more do the same. -/
theorem grammar_reads (k : Nat) : ∀ m n, k ≤ m → k ≤ n → (grammar m).Reads k (grammar n) := by
  induction k with
  | zero =>
    -- there is always the end token
    intro m n _ _
    constructor <;> exact fun c hc hk => absurd hc.length_pos (by omega)
  | succ k ih =>
    intro m n hm hn
    obtain ⟨m, rfl⟩ : ∃ m', m = m' + 1 := ⟨m - 1, by omega⟩
    obtain ⟨n, rfl⟩ : ∃ n', n = n' + 1 := ⟨n - 1, by omega⟩
    have hg := ih m n (by omega) (by omega)
    exact ⟨reads_type? hg, reads_expression hg, reads_assignment hg, reads_factor hg, reads_unary hg,
      reads_start hg, reads_statement hg⟩

end ObjScript
