import ObjScript.Proofs.Parser.Seam
import ObjScript.Proofs.Parser.Typedefs

/-!
# The rules of the grammar at a seam

No rule looks across a seam.  Types and expressions leave a token behind.  Statements may come up to the seam, and
then they are over: only a branch asks for one more token, an `else`, and the sections of a class and the bodies in
braces go on until their closing token, which alone would be missed (`grammar_joins`).
-/

namespace ObjScript

open Parse

/-- The parsers of `g` do not look across the seam when at most `k` tokens are left alone. -/
structure Grammar.Joins (S : Seam) (k : Nat) (g : Grammar) : Prop where
  moves : g.Moves .forward
  reads : g.Reads k g
  type? : Parse.Joins S k True g.type? Any
  expression : Parse.Joins S k True g.expression Any
  assignment : Parse.Joins S k True g.assignment Any
  factor : Parse.Joins S k True g.factor Any
  unary : Parse.Joins S k True g.unary Any
  start : Parse.Joins S k True g.start Never
  statement : Parse.Joins S k True g.statement Never

namespace Parse

variable {β : Type} {S : Seam} {g : Grammar} {k : Nat} {s : Prop} {R : β → Prop}

/-! ### Types -/

/-- Whether a block type begins is seen before the seam: a bracket is not the last token. -/
private theorem opensBlockType_eq (T : Names) {t : Token} {X : List Token} (hX : Complete (t :: X)) :
    ((S.joined T (t :: X)).current.is (.symbol .lpar) && (S.joined T (t :: X)).second.is (.symbol .caret)) =
      ((S.alone T (t :: X)).current.is (.symbol .lpar) && (S.alone T (t :: X)).second.is (.symbol .caret)) := by
  cases X with
  | cons u X => rfl
  | nil =>
    have ht : t.is (.symbol .lpar) = false := by
      have hlast := hX.last t rfl
      refine decide_eq_false fun h => ?_
      rw [h] at hlast
      cases hlast
    rw [S.joined_current, S.alone_current, ht]
    rfl

private theorem joins_opensBlockType : Joins S k True opensBlockType Any := by
  refine ⟨moves_opensBlockType, fun T X hX _ hne => ?_⟩
  obtain ⟨t, X, rfl⟩ := List.exists_cons_of_ne_nil (hne trivial)
  rintro _ _ ⟨⟩ -
  refine ⟨T, t :: X, hX, rfl, fun _ => List.cons_ne_nil t X, ?_⟩
  rw [result_opensBlockType, opensBlockType_eq T hX]

/-- Behind the two tokens that open a block type. -/
private theorem Joins.opening {A B : Parse β} (hA : Joins S k True A R) (hB : Joins S k True B R) :
    Joins S k True (opensBlockType >>= fun b => if b = true then advance >>= fun _ => advance >>= fun _ => A else B)
      R := by
  have hmoves : ∀ b : Bool, Moves .forward (if b = true then advance >>= fun _ => advance >>= fun _ => A else B) := by
    intro b
    split
    · exact .bind moves_advance fun _ => .bind moves_advance fun _ => hA.moves
    · exact hB.moves
  refine ⟨.bind moves_opensBlockType hmoves, fun T X hX hk hne => ?_⟩
  obtain ⟨t, X, rfl⟩ := List.exists_cons_of_ne_nil (hne trivial)
  intro b c hb hc
  rw [result_bind_ok (result_opensBlockType _)] at hb
  rw [result_bind_ok (result_opensBlockType _), opensBlockType_eq T hX]
  by_cases hopens : ((S.alone T (t :: X)).current.is (.symbol .lpar) &&
      (S.alone T (t :: X)).second.is (.symbol .caret)) = true
  · rw [if_pos hopens] at hb ⊢
    obtain ⟨ht, hsecond⟩ := Bool.and_eq_true_iff.1 hopens
    have ht : t.kind = .symbol .lpar := of_decide_eq_true ht
    obtain ⟨u, X, rfl⟩ := List.exists_cons_of_ne_nil (hX.tail_ne_nil (by rw [ht]; rfl))
    have hu : u.kind = .symbol .caret := of_decide_eq_true hsecond
    simp only [List.length_cons] at hk
    exact JoinsAt.advance hX (hA.advanced hX.tail (by omega) (by rw [hu]; rfl)) b c hb hc
  · rw [if_neg hopens] at hb ⊢
    exact hB.joins T (t :: X) hX hk hne b c hb hc

/-- What comes after the name of a type may be less deep. -/
private theorem Joins.afterTypeName {F : Option Token → Parse β} (hs : ∀ t, Joins S k True (F (some t)) R)
    (hn : Joins S (k + 1) True (F none) R) : Joins S (k + 1) True (typeName? >>= F) R := by
  have hmoves : ∀ o, Moves .forward (F o) := Option.forall.2 ⟨hn.moves, fun t => (hs t).moves⟩
  refine ⟨.bind (.look fun _ => moves_accept? _) hmoves, fun T X hX hk hne => ?_⟩
  obtain ⟨t, X, rfl⟩ := List.exists_cons_of_ne_nil (hne trivial)
  -- the names of the types are known alike, so the parser asks for the same tokens
  have hok : ∀ kind, (Kind.opensType kind || (decide (kind = .ident) && T.contains t.text)) = true →
      kind.endsStatement = false := by
    intro kind hkind
    unfold Kind.endsStatement
    split
    · cases hkind
    · cases hkind
    · rfl
  have haccept : Joins S (k + 1) True
      (accept? (fun kind => kind.opensType || (decide (kind = .ident) && T.contains t.text)) >>= F) R :=
    .acceptOption (s := True) (Nat.le_refl _) hs (fun _ => hok) hn
  exact haccept.joins T (t :: X) hX hk hne

private theorem joins_typeList (hg : g.Joins S k) : Joins S k True (typeList g) Any :=
  .bind (joins_commaSeparated hg.type?) fun _ => .pure fun _ => trivial

private theorem joins_innermostBlock (blocks : BlockHeads) : Joins S k True (innermostBlock blocks) Any :=
  .opening (.pure fun _ => trivial) (.pure fun _ => trivial)

private theorem joins_closedBlock (hg : g.Joins S k) (blocks : BlockHeads) :
    Joins S k True (closedBlock g blocks) Any := by
  refine .bind (joins_accept? fun kind h => by rw [of_decide_eq_true h]; rfl) fun name => ?_
  refine .accept (j := k) rfl (by omega) ?_ ?_
  · refine .bind (joins_expect nofun rfl) fun _ => .bind (joins_typeList hg) fun params => ?_
    exact .bind (joins_expect nofun rfl) fun _ => .pure fun _ => trivial
  · exact .bind (joins_fail (Q := Any) _) fun _ => .pure fun _ => trivial

private theorem joins_blockHead? (hg : g.Joins S k) (blocks : BlockHeads) :
    Joins S k True (blockHead? g blocks) Any := by
  rw [blockHead?_eq]
  refine .bind joins_hadError fun b => ?_
  split
  · exact .pure fun _ => trivial
  · exact .bind (joins_innermostBlock blocks) fun blocks => joins_closedBlock hg blocks

private theorem joins_blockType (hg : g.Joins S k) (base : TypeExpr) : Joins S k True (blockType g base) Any := by
  refine .bind (joins_expect nofun rfl) fun _ => .bind (joins_expect nofun rfl) fun _ => ?_
  refine .bind (joins_extend _ (joins_blockHead? hg) fun b => ?_) fun _ => .pure fun _ => trivial
  exact advances_of_turns (turns_blockHead? hg.reads b)

/-- What comes after a type may be less deep. -/
private theorem Joins.afterType {F : Option TypeExpr → Parse β} (hg : g.Joins S k)
    (hs : ∀ t, Joins S k True (F (some t)) R)
    (hn : Joins S (k + 1) True (F none) R) : Joins S (k + 1) True (Parse.type? g >>= F) R := by
  unfold Parse.type?
  rw [bind_assoc]
  refine .afterTypeName (fun t => ?_) (by simpa only [pure_bind] using hn)
  simp only [bind_assoc]
  refine .bind (joins_accept rfl) fun _ => .bind joins_opensBlockType fun b => ?_
  split
  · simp only [bind_assoc, pure_bind]
    exact .bind (joins_blockType hg _) fun t => hs t
  · simpa only [pure_bind] using hs _

private theorem joins_type? (hg : g.Joins S k) : Joins S (k + 1) True (Parse.type? g) Any := by
  have h : Joins S (k + 1) True (Parse.type? g >>= Pure.pure) Any :=
    .afterType hg (fun _ => .pure fun _ => trivial) (.pure fun _ => trivial)
  rwa [bind_pure] at h

/-! ### Expressions -/

private theorem joins_listBefore (hg : g.Joins S k) (closing : Symbol) :
    Joins S k True (listBefore g closing) Any := by
  refine .bind (joins_check _) fun b => ?_
  split
  · exact .pure fun _ => trivial
  · exact joins_commaSeparated hg.expression

private theorem joins_arguments (hg : g.Joins S k) {closing : Symbol}
    (hclosing : (Kind.symbol closing).endsStatement = false) :
    Joins S k True (arguments g closing) Any := by
  rw [arguments_eq]
  refine .bind (joins_listBefore hg closing) fun args => ?_
  exact .bind (joins_expect nofun hclosing) fun _ => .pure fun _ => trivial

private theorem joins_primary (hg : g.Joins S k) : Joins S (k + 1) True (primary g) Any := by
  refine .peek (moves_primary hg.moves) fun T t X hX hk => ?_
  have after {p : Parse Expr} (h : Joins S k True p Any) (ht : t.kind.endsStatement = false) :
      JoinsAt S T (t :: X) (advance >>= fun _ => p) (advance >>= fun _ => p) Any :=
    h.advanced hX (by omega) ht
  split
  case h_1 hkind =>
    cases hread : Number.read? t.text with
    | some x => exact after (.pure fun _ => trivial) (by rw [hkind]; rfl)
    | none => exact after (.throw _) (by rw [hkind]; rfl)
  case h_3 hkind =>
    refine after (.bind hg.expression fun e => ?_) (by rw [hkind]; rfl)
    exact .bind (joins_expect nofun rfl) fun _ => .pure fun _ => trivial
  case h_4 hkind => exact after (.bind (joins_arguments hg rfl) fun l => .pure fun _ => trivial) (by rw [hkind]; rfl)
  case h_12 =>
    have hfail : Joins S (k + 1) True
        (fail (.expectedExpression t.kind) >>= fun _ => pure (Expr.literal .nil)) Any :=
      .bind (joins_fail (Q := Any) _) fun _ => .pure fun _ => trivial
    exact hfail.joins T (t :: X) hX hk fun _ => List.cons_ne_nil t X
  all_goals
    rename_i hkind
    exact after (.pure fun _ => trivial) (by rw [hkind]; rfl)

private theorem joins_messageArgument? (hg : g.Joins S k) : Joins S k True (messageArgument? g) Any := by
  refine .bind (joins_check _) fun _ => .bind joins_atEnd fun _ => .bind joins_hadError fun _ => ?_
  split
  · exact .pure fun _ => trivial
  · refine .bind (joins_expect nofun rfl) fun _ => .bind (joins_expect nofun rfl) fun _ => ?_
    exact .bind hg.expression fun _ => .pure fun _ => trivial

private theorem joins_messageArguments (hg : g.Joins S k) : Joins S k True (messageArguments g) Any := by
  have hadvances : Advances k (messageArgument? g) := advances_of_turns (turns_messageArgument? hg.reads)
  refine .accept (j := k) rfl (by omega) (.bind hg.expression fun first => ?_) (.pure fun _ => trivial)
  exact .bind (joins_repeated (joins_messageArgument? hg) hadvances) fun l => .pure fun _ => trivial

private theorem joins_messageSend (hg : g.Joins S k) : Joins S (k + 1) True (messageSend g) Any := by
  rw [messageSend_eq]
  refine .accept rfl (Nat.le_refl _) ?_ (joins_primary hg)
  refine .bind hg.factor fun receiver => .bind (joins_expect nofun rfl) fun selector => ?_
  refine .bind (joins_messageArguments hg) fun args => ?_
  exact .bind (joins_expect nofun rfl) fun _ => .pure fun _ => trivial

private theorem joins_callSuffix? (hg : g.Joins S k) (e : Expr) : Joins S (k + 1) True (callSuffix? g e) Any := by
  unfold callSuffix?
  refine .accept rfl (Nat.le_refl _) ?_ (.accept rfl (Nat.le_refl _) ?_ (.pure fun _ => trivial))
  · exact .bind (joins_arguments hg rfl) fun _ => .pure fun _ => trivial
  · exact .bind (joins_expect nofun rfl) fun _ => .pure fun _ => trivial

theorem advances_callSuffix? (hg : g.Moves .forward) (e : Expr) : Advances k (callSuffix? g e) := by
  refine .accept nofun ?_ (.accept nofun ?_ advances_none)
  · exact .bind (moves_arguments hg _) fun _ => .pure _
  · exact .bind (moves_expect _) fun _ => .pure _

private theorem joins_call (hg : g.Joins S k) : Joins S (k + 1) True (call g) Any :=
  .bind (joins_messageSend hg) fun e => joins_extend e (joins_callSuffix? hg) (advances_callSuffix? hg.moves)

private theorem joins_param? (hg : g.Joins S k) : Joins S k True (param? g) Any := by
  refine .bind hg.type? fun o => ?_
  split
  · exact .pure fun _ => trivial
  · split
    · exact .pure fun _ => trivial
    · refine .bind (joins_accept? fun kind h => by rw [of_decide_eq_true h]; rfl) fun o => ?_
      split
      · exact .pure fun _ => trivial
      · exact .pure fun _ => trivial
      · exact .bind (joins_expect nofun rfl) fun _ => .pure fun _ => trivial

private theorem joins_paramList (hg : g.Joins S k) : Joins S k True (paramList g) Any := by
  refine .bind (joins_check _) fun b => ?_
  split
  · exact .pure fun _ => trivial
  · exact .bind (joins_commaSeparated (joins_param? hg)) fun _ => .pure fun _ => trivial

private theorem joins_blockStatement? (hg : g.Joins S k) : Joins S k True (blockStatement? g) Never := by
  refine .bind (joins_check _) fun _ => .bind joins_atEnd fun _ => .bind joins_hadError fun _ => ?_
  split
  · exact .pure fun _ => trivial
  · exact .bind hg.start fun _ => .pure id

private theorem result_blockStatement?_of_atEnd {c : Cursor} (hc : c.atEnd = true) :
    (blockStatement? g).result c = (.ok none, c) := by
  unfold blockStatement?
  rw [result_bind_ok (result_check _ c), result_bind_ok (result_atEnd c), result_bind_ok (result_hadError c), hc]
  simp

/-- Between braces statements may come up to the seam, but the closing brace may not. -/
private theorem joins_blockStatements (hg : g.Joins S k) : Joins S k s (blockStatements g) Any :=
  (joins_closing (.symbol .rbrace) nofun (joins_blockStatement? hg)
    (advances_of_turns (turns_blockStatement? hg.reads)) (fun _ => result_blockStatement?_of_atEnd) id).weaken id
    fun _ _ => rfl

private theorem joins_blockParams (hg : g.Joins S k) : Joins S k True (blockParams g) Any := by
  refine .accept (j := k) rfl (by omega) (.bind (joins_paramList hg) fun params => ?_) (.pure fun _ => trivial)
  exact .bind (joins_expect nofun rfl) fun _ => .pure fun _ => trivial

private theorem joins_blockLiteral (hg : g.Joins S k) : Joins S (k + 1) True (blockLiteral g) Any := by
  rw [blockLiteral_eq]
  refine .accept rfl (Nat.le_refl _) (.bind hg.type? fun returns => ?_) (joins_call hg)
  refine .bind (joins_blockParams hg) fun params => .bind (joins_expect nofun rfl) fun _ => ?_
  exact .bind (joins_blockStatements hg) fun _ => .pure fun _ => trivial

private theorem joins_unary (hg : g.Joins S k) : Joins S (k + 1) True (unary g) Any := by
  refine .peek (moves_unary hg.moves) fun T t X hX hk => ?_
  split
  · next op hop =>
    have ht : t.kind.endsStatement = false := Kind.endsStatement_of_eq_some hop rfl rfl
    exact Joins.advanced (.bind hg.unary fun e => .pure fun _ => trivial) hX (by omega) ht
  · exact (joins_blockLiteral hg).joins T (t :: X) hX hk fun _ => List.cons_ne_nil t X

theorem advances_indexSuffix? (hg : g.Moves .forward) (e : Expr) : Advances k (indexSuffix? g e) :=
  .accept nofun (.bind hg.expression fun _ => .bind (moves_expect _) fun _ => .pure _) advances_none

private theorem joins_index (hg : g.Joins S k) : Joins S (k + 1) True (index g) Any := by
  refine .bind (joins_unary hg) fun e => joins_extend e (fun e => ?_) (advances_indexSuffix? hg.moves)
  refine .accept rfl (Nat.le_refl _) (.bind hg.expression fun place => ?_) (.pure fun _ => trivial)
  exact .bind (joins_expect nofun rfl) fun _ => .pure fun _ => trivial

theorem advances_binarySuffix? {operand : Parse Expr} {op? : Kind → Option BinaryOp} (h : Moves .forward operand)
    (heof : op? .eof = none) (e : Expr) : Advances k (binarySuffix? operand op? e) := by
  intro c a c' hc _ hr _
  unfold binarySuffix? at hr
  rw [result_bind_ok (result_current c)] at hr
  split at hr
  · next op hop =>
    have hne : c.current.kind ≠ .eof := by
      intro h
      rw [h, heof] at hop
      cases hop
    have hoperand : Moves .forward (operand >>= fun r => pure (some (Expr.binary e op c.current.pos r))) :=
      .bind h fun _ => .pure _
    have hlength := hoperand.length_lt hc hne
    rw [result_bind_ok (result_advance c)] at hr
    rwa [hr] at hlength
  · cases hr

/-- A level of operators does not look across the seam if its operands do not. -/
private theorem joins_binaryLevel {operand : Parse Expr} {op? : Kind → Option BinaryOp}
    (h : Joins S (k + 1) True operand Any)
    (hsemi : op? (.symbol .semi) = none) (hend : op? (.keyword .endWord) = none) (heof : op? .eof = none) :
    Joins S (k + 1) True (binaryLevel operand op?) Any := by
  refine .bind h fun e => joins_extend e (fun e => ?_) (advances_binarySuffix? h.moves heof)
  have hmoves : Moves .forward (binarySuffix? operand op? e) := by
    refine .bind moves_current fun t => ?_
    split
    · exact .bind moves_advance fun _ => .bind h.moves fun _ => .pure _
    · exact .pure _
  refine .peek hmoves fun T t X hX hk => ?_
  split
  · next op hop =>
    have ht := Kind.endsStatement_of_eq_some hop hsemi hend
    exact Joins.advanced (.bind h fun r => .pure fun _ => trivial) hX (by omega) ht
  · exact .pure hX fun _ => List.cons_ne_nil t X

private theorem joins_logicalLevel {operand : Parse Expr} {op : LogicOp} (h : Joins S (k + 1) True operand Any) :
    Joins S (k + 1) True (logicalLevel operand op) Any := by
  refine .bind h fun e => joins_extend e (fun e => ?_) fun e => ?_
  · refine .accept (by cases op <;> rfl) (Nat.le_succ _) ?_ (.pure fun _ => trivial)
    exact .bind h fun _ => .pure fun _ => trivial
  · exact .accept nofun (.bind h.moves fun _ => .pure _) advances_none

private theorem joins_factor (hg : g.Joins S k) : Joins S (k + 1) True (factor g) Any :=
  joins_binaryLevel (joins_index hg) rfl rfl rfl

private theorem joins_term (hg : g.Joins S k) : Joins S (k + 1) True (term g) Any :=
  joins_binaryLevel (joins_factor hg) rfl rfl rfl

private theorem joins_comparison (hg : g.Joins S k) : Joins S (k + 1) True (comparison g) Any :=
  joins_binaryLevel (joins_term hg) rfl rfl rfl

private theorem joins_equality (hg : g.Joins S k) : Joins S (k + 1) True (equality g) Any :=
  joins_binaryLevel (joins_comparison hg) rfl rfl rfl

private theorem joins_disjunction (hg : g.Joins S k) : Joins S (k + 1) True (disjunction g) Any :=
  joins_logicalLevel (joins_logicalLevel (joins_equality hg))

private theorem joins_assignTo (target value : Expr) (op : AssignOp) (pos : Pos) (fault : SyntaxFault) :
    Joins S k True (assignTo target op pos value fault) Any := by
  unfold assignTo
  split
  · exact .pure fun _ => trivial
  · exact .pure fun _ => trivial
  · exact .pure fun _ => trivial
  · exact .bind (joins_fail (Q := Any) _) fun _ => .pure fun _ => trivial

private theorem joins_increment (hg : g.Joins S k) : Joins S (k + 1) True (increment g) Any := by
  refine .bind (joins_disjunction hg) fun target => .peek ?_ fun T t X hX hk => ?_
  · refine .bind moves_current fun _ => .bind (moves_accept _) fun _ => ?_
    split
    · exact moves_assignTo _ _ _ _ _
    · exact .pure _
  · have hincr : Joins S (k + 1) True (accept (.symbol .incr) >>= fun b => if b = true then
        assignTo target .increment t.pos (.literal (.number 1)) .invalidIncrement else pure target) Any :=
      .accept rfl (Nat.le_refl _) (joins_assignTo _ _ _ _ _) (.pure fun _ => trivial)
    exact hincr.joins T (t :: X) hX hk fun _ => List.cons_ne_nil t X

private theorem joins_assignment (hg : g.Joins S k) : Joins S (k + 1) True (assignment g) Any := by
  refine .bind (joins_increment hg) fun target => .peek ?_ fun T t X hX hk => ?_
  · refine .bind moves_current fun _ => ?_
    split
    · exact .bind moves_advance fun _ => .bind hg.moves.assignment fun _ => moves_assignTo _ _ _ _ _
    · exact .pure _
  · split
    · next op hop =>
      have ht := Kind.endsStatement_of_eq_some hop rfl rfl
      exact Joins.advanced (.bind hg.assignment fun _ => joins_assignTo _ _ _ _ _) hX (by omega) ht
    · exact .pure hX fun _ => List.cons_ne_nil t X

private theorem joins_expression (hg : g.Joins S k) : Joins S (k + 1) True (expression g) Any := by
  refine .bind (joins_assignment hg) fun condition => .accept rfl (Nat.le_refl _) ?_ (.pure fun _ => trivial)
  refine .bind hg.expression fun yes => .bind (joins_expect nofun rfl) fun _ => ?_
  exact .bind hg.expression fun no => .pure fun _ => trivial

/-! ### Statements -/

/-- An expression that may be left out before a token: alone at the seam neither is there. -/
private theorem joins_expressionBefore (hg : g.Joins S k) (closing : Symbol) :
    Joins S k s (expressionBefore g closing) Any := by
  refine .anywhere (.bind (joins_check _) fun b => ?_) (.check nofun ?_)
  · split
    · exact .pure fun _ => trivial
    · exact hg.expression.map some fun _ => id
  · rw [map_eq_pure_bind]
    exact .bind (stuck_of_reads hg.reads.expression) fun _ => .pure _

private theorem joins_initialValue (hg : g.Joins S k) : Joins S k True (initialValue g) Any :=
  .accept (j := k) rfl (by omega) (hg.expression.map some fun _ => id) (.pure fun _ => trivial)

private theorem joins_varDeclaration (hg : g.Joins S k) (name : Name) (type : TypeExpr) :
    Joins S k True (varDeclaration g name type) Never := by
  rw [varDeclaration_eq]
  exact .bind (joins_initialValue hg) fun init => .bind (joins_expectLast nofun) fun _ => .pure False.elim

private theorem joins_functionDeclaration (hg : g.Joins S k) (name : Name) :
    Joins S k True (functionDeclaration g name) Never := by
  refine .bind (joins_paramList hg) fun params => .bind (joins_expect nofun rfl) fun _ => ?_
  refine .acceptLast (j := k) (by omega) (.pure id) ?_
  exact .bind (joins_expect nofun rfl) fun _ => .bind (joins_blockStatements hg) fun _ => .pure fun _ => trivial

private theorem joins_declaration (hg : g.Joins S k) (type : TypeExpr) :
    Joins S k True (declaration g type) Never := by
  have hname : Joins S k True (declaredName type) Any := by
    unfold declaredName
    split
    · exact .pure fun _ => trivial
    · refine .bind (joins_expectOr rfl fun kind h => ?_) fun _ => .pure fun _ => trivial
      rw [List.contains_iff_mem, List.mem_singleton] at h
      rw [h]
      rfl
    · exact .bind (joins_expect nofun rfl) fun _ => .pure fun _ => trivial
  refine .bind hname fun name => .accept (j := k) rfl (by omega) ?_ ?_
  · exact .bind (joins_functionDeclaration hg name) fun _ => .pure id
  · exact .bind (joins_varDeclaration hg name type) fun _ => .pure id

private theorem joins_expressionStatement (hg : g.Joins S k) : Joins S (k + 1) True (expressionStatement g) Never :=
  .bind (joins_expression hg) fun _ => .bind (joins_acceptLast _) fun _ => .pure id

private theorem joins_block (hg : g.Joins S k) : Joins S k s (block g) Never :=
  .bind (joins_blockStatements hg) fun _ => .bind (joins_acceptLast _) fun _ => .pure id

private theorem joins_body (hg : g.Joins S k) : Joins S k True (body g) Never :=
  .accept (j := k) rfl (by omega) (joins_block hg) hg.statement

private theorem joins_condition (hg : g.Joins S k) : Joins S k s (condition g) Any := by
  refine .bind (joins_expect nofun rfl) fun _ => .bind hg.expression fun _ => ?_
  exact .bind (joins_expect nofun rfl) fun _ => .pure fun _ => trivial

/-- The one part that asks for another token where a statement may be over. -/
private theorem joins_elseBranch (hg : g.Joins S k) : Joins S k s (elseBranch g) Never := by
  refine .bind joins_acceptElse fun b => ?_
  split
  · next hb => exact ((joins_body hg).weaken (fun _ => hb) fun _ => id).map some fun _ => id
  · exact .pure False.elim

private theorem joins_ifStatement (hg : g.Joins S k) : Joins S k s (ifStatement g) Never := by
  rw [ifStatement_eq]
  refine .bind (joins_condition hg) fun c => .bind (joins_body hg) fun yes => ?_
  exact .bind (joins_elseBranch hg) fun no => .pure id

private theorem joins_whileStatement (hg : g.Joins S k) : Joins S k s (whileStatement g) Never :=
  .bind (joins_condition hg) fun _ => .bind (joins_body hg) fun _ => .pure id

private theorem joins_forInit (hg : g.Joins S k) : Joins S k True (forInit g) Never := by
  refine .acceptLast (j := k) (by omega) (.pure id) (.bind hg.type? fun o => ?_)
  split
  · exact .bind (joins_declaration hg _) fun _ => .pure id
  · exact .bind ((joins_expressionStatement hg).mono (Nat.le_succ k)) fun _ => .pure id

/-- The semicolon before the condition may be the last token; then the condition is missed. -/
private theorem joins_forCondition (hg : g.Joins S k) : Joins S k s (forCondition g) Never := by
  refine .anywhere (.acceptLast (j := k) (by omega) (.pure id) (.bind hg.expression fun e => ?_)) (.accept nofun ?_)
  · exact .bind (joins_expectLast nofun) fun _ => .pure False.elim
  · refine .bind (stuck_of_reads hg.reads.expression) fun e => ?_
    exact .bind (moves_expect _) fun _ => .pure _

private theorem joins_forStatement (hg : g.Joins S k) : Joins S k s (forStatement g) Never := by
  rw [forStatement_eq]
  refine .bind (joins_expect nofun rfl) fun _ => .bind (joins_forInit hg) fun init => ?_
  refine .bind (joins_forCondition hg) fun c => .bind (joins_expressionBefore hg .rpar) fun step => ?_
  exact .bind (joins_expect nofun rfl) fun _ => .bind (joins_body hg) fun _ => .pure id

private theorem joins_returnStatement (hg : g.Joins S k) : Joins S k s (returnStatement g) Never := by
  rw [returnStatement_eq]
  exact .bind (joins_expressionBefore hg .semi) fun value => .bind (joins_expectLast nofun) fun _ => .pure False.elim

private theorem joins_printStatement (hg : g.Joins S k) : Joins S k True (printStatement g) Never :=
  .bind hg.expression fun _ => .bind (joins_expectLast nofun) fun _ => .pure False.elim

/-- A new type name is known alone and joined. -/
private theorem joins_register (name : String) :
    Joins S k s (modify fun c : Cursor => { c with typedefs := c.typedefs.add name }) fun _ => s := by
  refine ⟨fun c => ⟨Nat.le_refl _, id⟩, fun T X hX _ hne => ?_⟩
  rintro _ _ ⟨⟩ -
  exact ⟨T.add name, X, hX, rfl, hne, rfl⟩

private theorem joins_typedefRest (type : TypeExpr) : Joins S k True (typedefRest type) Never := by
  have hname : Joins S k True (typedefName type) Any := by
    unfold typedefName
    split
    · exact .pure fun _ => trivial
    · exact .bind (joins_expect nofun rfl) fun _ => .pure fun _ => trivial
  refine .bind hname fun name => .bind (joins_expectLast nofun) fun _ => ?_
  exact .bind (joins_register _) fun _ => .pure False.elim

private theorem joins_typedefStatement (hg : g.Joins S k) : Joins S k True (typedefStatement g) Never := by
  rw [typedefStatement_eq]
  refine .bind hg.type? fun o => ?_
  split
  · exact .bind (joins_fail (Q := Any) _) fun _ => .bind (joins_expect nofun rfl) fun _ => .pure False.elim
  · exact joins_typedefRest _

private theorem joins_neededType (hg : g.Joins S k) (fault : SyntaxFault) :
    Joins S k True (neededType g fault) Any := by
  refine .bind hg.type? fun o => ?_
  split
  · exact .pure fun _ => trivial
  · exact .bind (joins_fail (Q := Any) _) fun _ => .pure fun _ => trivial

private theorem joins_selectorPart (hg : g.Joins S k) : Joins S k s (selectorPart g) Any := by
  rw [selectorPart_eq]
  refine .bind (joins_expect nofun rfl) fun _ => .bind (joins_neededType hg _) fun type => ?_
  exact .bind (joins_expect nofun rfl) fun _ => .bind (joins_expect nofun rfl) fun _ => .pure fun _ => trivial

private theorem joins_selectorSuffix? (hg : g.Joins S k) : Joins S k True (selectorSuffix? g) Any := by
  refine .accept (j := k) rfl (by omega) (.bind (joins_expect nofun rfl) fun _ => ?_) (.pure fun _ => trivial)
  exact .bind (joins_selectorPart hg) fun _ => .pure fun _ => trivial

private theorem joins_methodParams (hg : g.Joins S k) : Joins S k True (methodParams g) Any := by
  have hadvances : Advances k (selectorSuffix? g) := advances_of_turns (turns_selectorSuffix? hg.reads)
  refine .accept (j := k) rfl (by omega) (.bind (joins_selectorPart hg) fun first => ?_) (.pure fun _ => trivial)
  exact .bind (joins_repeated (joins_selectorSuffix? hg) hadvances) fun l => .pure fun _ => trivial

private theorem joins_methodBody (hg : g.Joins S k) : Joins S k True (methodBody g) Never := by
  refine .accept (j := k) rfl (by omega) (joins_blockStatements hg).never ?_
  exact .bind (joins_expectLast nofun) fun _ => .pure False.elim

private theorem joins_method (hg : g.Joins S k) (isStatic : Bool) : Joins S k True (method g isStatic) Never := by
  rw [method_eq]
  refine .bind (joins_selectorPart hg) fun head => .bind (joins_methodParams hg) fun params => ?_
  exact .bind (joins_methodBody hg) fun body => .pure id

private theorem joins_propertyAttributes : Joins S k True propertyAttributes Any := by
  refine .accept (j := k) rfl (by omega) ?_ (.pure fun _ => trivial)
  refine .bind (joins_commaSeparated (joins_accept? fun kind h => ?_)) fun _ => ?_
  · rw [Bool.or_eq_true, decide_eq_true_eq, decide_eq_true_eq] at h
    rcases h with rfl | rfl <;> rfl
  · exact .bind (joins_expect nofun rfl) fun _ => .pure fun _ => trivial

private theorem joins_property (hg : g.Joins S k) : Joins S k True (property g) Never := by
  rw [property_eq]
  refine .bind joins_propertyAttributes fun _ => .bind (joins_neededType hg _) fun type => ?_
  refine .bind (joins_accept rfl) fun _ => .bind (joins_expectOr rfl fun kind h => ?_) fun name =>
    joins_varDeclaration hg _ _
  simp only [List.contains_iff_mem, List.mem_cons, List.not_mem_nil, or_false] at h
  rcases h with rfl | rfl <;> rfl

private theorem joins_inSection : Joins S k True inSection Any :=
  .bind (joins_check _) fun _ => .bind joins_atEnd fun _ => .bind joins_hadError fun _ => .pure id

private theorem result_inSection_of_atEnd {c : Cursor} (hc : c.atEnd = true) :
    inSection.result c = (.ok false, c) := by
  unfold inSection
  rw [result_bind_ok (result_check _ c), result_bind_ok (result_atEnd c), result_bind_ok (result_hadError c), hc]
  simp

private theorem joins_methodSign? : Joins S k True methodSign? Any := by
  refine .bind (joins_accept? fun kind h => ?_) fun _ => .pure fun _ => trivial
  rw [Bool.or_eq_true, decide_eq_true_eq, decide_eq_true_eq] at h
  rcases h with rfl | rfl <;> rfl

private theorem joins_interfaceMember? (hg : g.Joins S k) : Joins S k True (interfaceMember? g) Never := by
  refine .bind joins_inSection fun b => ?_
  split
  · refine .bind joins_methodSign? fun o => ?_
    split
    · exact .bind (joins_method hg _) fun _ => .pure id
    · refine .accept (j := k) rfl (by omega) ?_ ?_
      · exact .bind (joins_property hg) fun _ => .pure id
      · exact .bind (joins_fail (Q := Never) _) fun _ => .pure id
  · exact .pure fun _ => trivial

private theorem joins_implementationMember? (hg : g.Joins S k) : Joins S k True (implementationMember? g) Never := by
  refine .bind joins_inSection fun b => ?_
  split
  · refine .bind joins_methodSign? fun o => ?_
    split
    · exact .bind (joins_method hg _) fun _ => .pure id
    · exact .bind (joins_fail (Q := Never) _) fun _ => .pure id
  · exact .pure fun _ => trivial

private theorem joins_superclassName : Joins S k True superclassName Any := by
  refine .accept (j := k) rfl (by omega) ?_ (.pure fun _ => trivial)
  exact .bind (joins_expect nofun rfl) fun _ => .pure fun _ => trivial

/-- The members of a class may come up to the seam, but the `end` behind them may not be missed. -/
private theorem joins_classDeclaration (hg : g.Joins S k) : Joins S k s (classDeclaration g) Never := by
  rw [classDeclaration_eq]
  refine .bind (joins_expect nofun rfl) fun name => .bind joins_superclassName fun superclass => ?_
  unfold interfaceMembers
  simp only [bind_assoc, pure_bind]
  refine (joins_closing (.keyword .endWord) nofun (joins_interfaceMember? hg)
    (advances_of_turns (turns_interfaceMember? hg.reads)) (fun c hc => ?_) fun turns =>
      Stmt.classDef name.toName superclass ((turns.filterMap id).filterMap Sum.getLeft?)
        ((turns.filterMap id).filterMap Sum.getRight?)).never
  unfold interfaceMember?
  rw [result_bind_ok (result_inSection_of_atEnd hc)]
  rfl

private theorem joins_category : Joins S k True category Any := by
  refine .accept (j := k) rfl (by omega) ?_ (.pure fun _ => trivial)
  refine .bind (joins_accept rfl) fun _ => .bind (joins_accept rfl) fun _ => ?_
  exact .bind (joins_expect nofun rfl) fun _ => .pure fun _ => trivial

private theorem joins_classImplementation (hg : g.Joins S k) : Joins S k s (classImplementation g) Never := by
  rw [classImplementation_eq]
  refine .bind (joins_expect nofun rfl) fun name => .bind joins_category fun _ => ?_
  unfold implementationMethods
  simp only [bind_assoc, pure_bind]
  refine (joins_closing (.keyword .endWord) nofun (joins_implementationMember? hg)
    (advances_of_turns (turns_implementationMember? hg.reads)) (fun c hc => ?_) fun turns =>
      Stmt.classImpl name.toName (turns.filterMap id)).never
  unfold implementationMember?
  rw [result_bind_ok (result_inSection_of_atEnd hc)]
  rfl

private theorem joins_statement (hg : g.Joins S k) (hmoves : Moves .forward (Parse.statement g)) :
    Joins S (k + 1) True (Parse.statement g) Never := by
  refine .peek hmoves fun T t X hX hk => ?_
  have after {p : Parse Stmt} (h : Joins S k True p Never) (ht : t.kind.endsStatement = false) :
      JoinsAt S T (t :: X) (advance >>= fun _ => p) (advance >>= fun _ => p) Never :=
    h.advanced hX (by omega) ht
  split
  case h_1 hkind => exact after (joins_block hg) (by rw [hkind]; rfl)
  case h_2 hkind => exact after (joins_ifStatement hg) (by rw [hkind]; rfl)
  case h_3 hkind => exact after (joins_returnStatement hg) (by rw [hkind]; rfl)
  case h_4 hkind => exact after (joins_whileStatement hg) (by rw [hkind]; rfl)
  case h_5 hkind => exact after (joins_forStatement hg) (by rw [hkind]; rfl)
  case h_6 hkind => exact after (joins_printStatement hg) (by rw [hkind]; rfl)
  case h_7 hkind => exact after (joins_classDeclaration hg) (by rw [hkind]; rfl)
  case h_8 hkind => exact after (joins_classImplementation hg) (by rw [hkind]; rfl)
  case h_9 hkind => exact after (joins_typedefStatement hg) (by rw [hkind]; rfl)
  case h_10 => exact (joins_expressionStatement hg).joins T (t :: X) hX hk fun _ => List.cons_ne_nil t X

private theorem joins_start (hg : g.Joins S k) (hmoves : Moves .forward (Parse.statement g)) :
    Joins S (k + 1) True (Parse.start g) Never :=
  .afterType hg (joins_declaration hg) (joins_statement hg hmoves)

end Parse

/-- A typedef statement goes along every way on which the type names do not count, like any other statement. -/
theorem typedefMoves_of_register {W : Way}
    (hregister : ∀ c name, W.rel c { c with typedefs := c.typedefs.add name }) (n : Nat) :
    TypedefMoves W (grammar n) := by
  intro c hkind
  rw [result_statement_typedef hkind, typedefStatement_eq]
  refine W.trans (W.advance c) (Parse.Moves.bind (moves_grammar_type? W n) (fun o => ?_) _)
  have hregister (name : String) : Parse.Moves W
      (modify fun c : Cursor => { c with typedefs := c.typedefs.add name }) :=
    fun c => hregister c name
  split
  · exact .bind (moves_fail _) fun _ => .bind (moves_expect _) fun _ => .pure _
  · refine .bind ?_ fun name => .bind (moves_expect _) fun _ => .bind (hregister _) fun _ => .pure _
    unfold typedefName
    split
    · exact .pure _
    · exact .bind (moves_expect _) fun _ => .pure _

private theorem typedefMoves_forward (n : Nat) : TypedefMoves .forward (grammar n) :=
  typedefMoves_of_register (W := .forward) (fun _ _ => ⟨Nat.le_refl _, id⟩) n

/-- The parsers of nesting `k` or more do not look across a seam when at most `k` tokens are left alone. -/
theorem grammar_joins (S : Seam) (k : Nat) : ∀ n, k ≤ n → (grammar n).Joins S k := by
  induction k with
  | zero =>
    -- alone there is always the end token
    intro n _
    have hmoves := grammar_moves typedefMoves_forward n
    have hnone {α : Type} {s : Prop} {p : Parse α} {Q : α → Prop} (h : Parse.Moves .forward p) :
        Parse.Joins S 0 s p Q :=
      ⟨h, fun _ _ _ hk _ => absurd hk (Nat.not_lt_zero _)⟩
    exact ⟨hmoves, grammar_reads 0 _ _ (Nat.zero_le n) (Nat.zero_le n), hnone hmoves.type?, hnone hmoves.expression,
      hnone hmoves.assignment, hnone hmoves.factor, hnone hmoves.unary, hnone hmoves.start, hnone hmoves.statement⟩
  | succ k ih =>
    intro n hn
    obtain ⟨n, rfl⟩ : ∃ n', n = n' + 1 := ⟨n - 1, by omega⟩
    have hg := ih n (by omega)
    have hmoves := grammar_moves typedefMoves_forward (n + 1)
    exact ⟨hmoves, grammar_reads (k + 1) _ _ hn hn, joins_type? hg, joins_expression hg, joins_assignment hg,
      joins_factor hg, joins_unary hg, joins_start hg hmoves.statement, joins_statement hg hmoves.statement⟩

end ObjScript
