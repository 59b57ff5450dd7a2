import ObjScript.Prompt.Entry
import ObjScript.Proofs.Parser.Parts
import ObjScript.Proofs.Parser.Spelled
import ObjScript.Proofs.Parser.Tally

/-!
# Brackets and sections in what a parser reads

The prompt counts open brackets and open sections of classes, token by token (`Prompt.openings`).  The parser knows
nothing of these counts, but as long as it notes no error it reads every closing token that an opening one asks for.
So every rule of the grammar ends at the level at which it begins (`grammar_levels`), also the one for block types,
which opens and closes brackets in turns and remembers how many are left.
-/

namespace ObjScript

namespace Prompt

/-- The numbers of open brackets and of open sections. -/
structure Level where
  brackets : Nat
  sections : Nat
deriving DecidableEq

namespace Level

/-- Some brackets more. -/
def bracketedBy (L : Level) (n : Nat) : Level :=
  ⟨L.brackets + n, L.sections⟩

/-- One bracket more. -/
abbrev bracketed (L : Level) : Level :=
  L.bracketedBy 1

/-- One section more. -/
def sectioned (L : Level) : Level :=
  ⟨L.brackets, L.sections + 1⟩

end Level

/-- What the prompt counts. -/
def openings : Tally Level where
  after L kind :=
    { brackets :=
        if opensBracket kind then L.brackets + 1 else if closesBracket kind then L.brackets - 1 else L.brackets
      sections :=
        if opensSection kind then L.sections + 1 else if closesSection kind then L.sections - 1 else L.sections }
  after_eof _ := rfl

end Prompt

open Prompt

open Parse

/-- The parsers of the grammar stay at every level. -/
structure Grammar.Levels (g : Grammar) : Prop where
  type? : ∀ L, Goes openings L g.type? L
  expression : ∀ L, Goes openings L g.expression L
  assignment : ∀ L, Goes openings L g.assignment L
  factor : ∀ L, Goes openings L g.factor L
  unary : ∀ L, Goes openings L g.unary L
  start : ∀ L, Goes openings L g.start L
  statement : ∀ L, Goes openings L g.statement L

namespace Parse

section Rules

variable {g : Grammar} (hg : g.Levels) (L : Level)

include hg

/-! ### Types -/

private theorem goes_typeList : Goes openings L (typeList g) L := by
  apply (goes_commaSeparated rfl (hg.type? L)).bind
  intro types
  exact .pure rfl

omit hg in
/-- A block that is opened takes a bracket with it. -/
private theorem counts_innermostBlock (blocks : BlockHeads) :
    Counts openings.noting (L.bracketedBy blocks.pending.length, false) (innermostBlock blocks) fun b =>
      (L.bracketedBy b.pending.length, decide (blocks.pending.length < b.pending.length)) := by
  intro c hc
  unfold innermostBlock
  apply CountsAt.look (result_opensBlockType c)
  split
  · next hopens =>
    obtain ⟨hlpar, hcaret⟩ := Bool.and_eq_true_iff.1 hopens
    have hfirst : c.current.kind = .symbol .lpar := of_decide_eq_true hlpar
    apply (countsAt_advance hc).bind
    rintro t c₁ ⟨⟩ hc₁
    have hsecond : c.advance.current.kind = .symbol .caret := by
      rw [Cursor.current_advance hc (by rw [hfirst]; nofun)]
      exact of_decide_eq_true hcaret
    rw [hfirst]
    apply CountsAt.advance hc₁ (congrArg _ hsecond)
    intro _
    apply Counts.pure
    have hopened : blocks.pending.length < blocks.opened.pending.length := Nat.lt_succ_self _
    rw [decide_eq_true hopened]
    rfl
  · apply CountsAt.stay hc rfl
    intro _
    rw [decide_eq_false (Nat.lt_irrefl _)]

omit hg in
/-- There is an innermost block if one was open. -/
private theorem innermostBlock_pending {blocks b : BlockHeads} {c c₁ : Cursor} (h : blocks.pending ≠ [])
    (hb : (innermostBlock blocks).result c = (.ok b, c₁)) : b.pending ≠ [] := by
  unfold innermostBlock at hb
  rw [result_bind_ok (result_opensBlockType c)] at hb
  split at hb
  · cases hb
    exact List.cons_ne_nil _ _
  · cases hb
    exact h

/-- A block that is closed takes its bracket with it. -/
private theorem counts_closedBlock {blocks : BlockHeads} (h : blocks.pending ≠ []) (r : Bool) :
    Counts openings.noting (L.bracketedBy blocks.pending.length, r) (closedBlock g blocks) fun o =>
      (L.bracketedBy (o.elim 0 fun b => b.pending.length), o.isSome) := by
  obtain ⟨i, outer, hpending⟩ := List.exists_cons_of_ne_nil h
  rw [hpending, List.length_cons]
  have hclosed : ∀ head, (blocks.closed head).pending = outer := by
    intro head
    unfold BlockHeads.closed
    rw [hpending]
  have hident : ∀ kind, decide (kind = .ident) = true →
      openings.noting.after (L.bracketedBy (outer.length + 1), r) kind =
        (L.bracketedBy (outer.length + 1), true) := by
    intro kind hkind
    rw [of_decide_eq_true hkind]
    rfl
  unfold closedBlock
  apply (counts_accept? hident).bind
  intro name
  -- with or without a name, the bracket is what counts
  obtain ⟨r', hr'⟩ : ∃ r', (name.elim (L.bracketedBy (outer.length + 1), r) fun _ =>
      (L.bracketedBy (outer.length + 1), true)) = (L.bracketedBy (outer.length + 1), r') := by
    cases name with
    | none => exact ⟨r, rfl⟩
    | some t => exact ⟨true, rfl⟩
  rw [hr']
  apply counts_accept
  · apply (goes_expect rfl).bind
    intro _
    apply (goes_typeList hg (L.bracketedBy (outer.length + 1))).noting.bind
    intro params
    apply (goes_expect rfl).bind
    intro _
    apply Counts.pure
    rw [Option.elim_some, hclosed]
    rfl
  · apply (goes_fail _ _).bind
    intro _
    exact .pure rfl

/-- Where the list of blocks goes on, something was read. -/
private theorem counts_blockHead? (blocks : BlockHeads) :
    Counts openings.noting (L.bracketedBy blocks.pending.length, false) (blockHead? g blocks) fun o =>
      (L.bracketedBy (o.elim 0 fun b => b.pending.length), o.isSome) := by
  intro c hc
  rw [blockHead?_eq]
  apply CountsAt.look (result_hadError c)
  split
  · next hstop =>
    apply CountsAt.stay hc rfl
    intro he
    rw [he, Option.isSome_none, Bool.or_false, List.isEmpty_iff] at hstop
    rw [hstop]
    rfl
  · next hstop =>
    have hpending : blocks.pending ≠ [] := by
      intro hnil
      rw [hnil] at hstop
      exact hstop rfl
    apply (counts_innermostBlock L blocks c hc).bind
    intro b c₁ hb hc₁
    exact counts_closedBlock hg L (innermostBlock_pending hpending hb) _ c₁ hc₁

/-- The blocks of a type are read until all of them are closed: there is a turn for every token. -/
private theorem countsAt_blockHeads (turns : List Token) :
    ∀ blocks c, Ended c.rest → (c.error?.isSome = true ∨ c.rest.length ≤ turns.length) →
      CountsAt openings c (L.bracketedBy blocks.pending.length) (iterate (blockHead? g) turns blocks) fun _ => L := by
  induction turns with
  | nil =>
    intro blocks c hc hturns
    -- the end token is still there, so that the turns can only run out after an error
    apply CountsAt.failed
    rintro _ _ ⟨⟩
    refine ⟨hc, hturns.resolve_right fun hlength => ?_⟩
    have hpos := hc.length_pos
    rw [List.length_nil] at hlength
    omega
  | cons t turns ih =>
    intro blocks c hc hturns
    have hhead := counts_blockHead? hg L blocks c hc
    unfold iterate
    apply hhead.of_noting.bind
    intro o c₁ ho hc₁
    cases o with
    | none => exact .stay hc₁ rfl fun _ => rfl
    | some b =>
      apply ih b c₁ hc₁
      cases he : c₁.error? with
      | some e => exact .inl rfl
      | none =>
        -- a turn that goes on without an error reads something, and the bound holds again
        have hlater := hhead.length_lt ho he rfl
        rw [((hhead (some b) c₁ ho).2 he).1] at hturns
        rcases hturns with hsome | hlength
        · cases hsome
        · rw [List.length_cons] at hlength
          exact .inr (by omega)

private theorem goes_blockType (base : TypeExpr) : Goes openings L (blockType g base) L := by
  unfold blockType
  apply (goes_expect rfl).bind
  intro _
  apply (goes_expect rfl).bind
  intro _
  have hblocks : Goes openings L.bracketed (extend (BlockHeads.opened ⟨[], []⟩) (blockHead? g)) L :=
    fun c hc => .look (result_turns c) (countsAt_blockHeads hg L _ _ c hc (.inr (Nat.le_succ _)))
  apply hblocks.bind
  intro blocks
  exact .pure rfl

omit hg in
private theorem goes_typeName? : Goes openings L typeName? L := by
  apply Counts.look
  intro c hc
  apply goes_accept? _ c hc
  intro kind hkind
  rcases Bool.or_eq_true_iff.1 hkind with hopens | hident
  · unfold Kind.opensType at hopens
    split at hopens <;> first | rfl | cases hopens
  · rw [of_decide_eq_true (Bool.and_eq_true_iff.1 hident).1]
    rfl

private theorem goes_type? : Goes openings L (Parse.type? g) L := by
  unfold Parse.type?
  apply (goes_typeName? L).bind
  intro o
  cases o with
  | none => exact .pure rfl
  | some name =>
    apply (goes_accept rfl).bind
    intro _
    have hopens : Goes openings L opensBlockType L := fun c hc => .stay hc rfl fun _ => rfl
    apply hopens.bind
    intro b
    split
    · apply (goes_blockType hg L _).bind
      intro type
      exact .pure rfl
    · exact .pure rfl

/-! ### Expressions -/

private theorem goes_listBefore (closing : Symbol) : Goes openings L (listBefore g closing) L := by
  unfold listBefore
  apply (goes_check _).bind
  intro b
  split
  · exact .pure rfl
  · exact goes_commaSeparated rfl (hg.expression L)

private theorem goes_arguments {closing : Symbol} (h : openings.after L.bracketed (.symbol closing) = L) :
    Goes openings L.bracketed (arguments g closing) L := by
  rw [arguments_eq]
  apply (goes_listBefore hg L.bracketed closing).bind
  intro args
  apply (goes_expect h).bind
  intro _
  exact .pure rfl

private theorem goes_primary : Goes openings L (primary g) L := by
  unfold primary
  apply Counts.peek
  intro c hc
  split
  case h_1 hkind =>
    apply CountsAt.advance hc (congrArg _ hkind)
    intro _
    split
    · exact .pure rfl
    · exact .throw _
  case h_3 hkind =>
    apply CountsAt.advance hc (congrArg _ hkind)
    intro _
    apply (hg.expression L.bracketed).bind
    intro e
    apply (goes_expect rfl).bind
    intro _
    exact .pure rfl
  case h_4 hkind =>
    apply CountsAt.advance hc (congrArg _ hkind)
    intro _
    apply (goes_arguments hg L rfl).bind
    intro items
    exact .pure rfl
  case h_12 =>
    apply (goes_fail _ L).bind _ c hc
    intro _
    exact .pure rfl
  -- the other tokens are no brackets
  all_goals
    rename_i hkind
    apply CountsAt.advance hc (congrArg _ hkind)
    intro _
    exact .pure rfl

private theorem goes_messageArgument? : Goes openings L (messageArgument? g) L := by
  unfold messageArgument?
  apply (goes_check _).bind
  intro _
  apply goes_atEnd.bind
  intro _
  apply goes_hadError.bind
  intro _
  split
  · exact .pure rfl
  · apply (goes_expect rfl).bind
    intro _
    apply (goes_expect rfl).bind
    intro _
    apply (hg.expression L).bind
    intro e
    exact .pure rfl

private theorem goes_messageArguments : Goes openings L (messageArguments g) L := by
  unfold messageArguments
  apply counts_accept
  · apply (hg.expression L).bind
    intro first
    apply (goes_repeated (goes_messageArgument? hg L)).bind
    intro others
    exact .pure rfl
  · exact .pure rfl

private theorem goes_messageSend : Goes openings L (messageSend g) L := by
  rw [messageSend_eq]
  apply counts_accept
  · apply (hg.factor L.bracketed).bind
    intro receiver
    apply (goes_expect rfl).bind
    intro selector
    apply (goes_messageArguments hg L.bracketed).bind
    intro args
    apply (goes_expect rfl).bind
    intro _
    exact .pure rfl
  · exact goes_primary hg L

private theorem goes_callSuffix? (e : Expr) : Goes openings L (callSuffix? g e) L := by
  unfold callSuffix?
  apply counts_accept
  · apply (goes_arguments hg L rfl).bind
    intro args
    exact .pure rfl
  · apply counts_accept
    · apply (goes_expect rfl).bind
      intro name
      exact .pure rfl
    · exact .pure rfl

private theorem goes_call : Goes openings L (call g) L := by
  apply (goes_messageSend hg L).bind
  intro e
  exact goes_extend (goes_callSuffix? hg L) e

private theorem goes_param? : Goes openings L (param? g) L := by
  unfold param?
  apply (hg.type? L).bind
  intro o
  cases o with
  | none => exact .pure rfl
  | some type =>
    dsimp only
    cases type.blockName? with
    | some name => exact .pure rfl
    | none =>
      have hident : ∀ kind, decide (kind = .ident) = true → openings.after L kind = L := by
        intro kind hkind
        rw [of_decide_eq_true hkind]
        rfl
      apply (goes_accept? hident).bind
      intro name
      split
      · exact .pure rfl
      · exact .pure rfl
      · apply (goes_expect rfl).bind
        intro name
        exact .pure rfl

private theorem goes_paramList : Goes openings L (paramList g) L := by
  unfold paramList
  apply (goes_check _).bind
  intro b
  split
  · exact .pure rfl
  · apply (goes_commaSeparated rfl (goes_param? hg L)).bind
    intro params
    exact .pure rfl

private theorem goes_blockStatement? : Goes openings L (blockStatement? g) L := by
  unfold blockStatement?
  apply (goes_check _).bind
  intro _
  apply goes_atEnd.bind
  intro _
  apply goes_hadError.bind
  intro _
  split
  · exact .pure rfl
  · apply (hg.start L).bind
    intro t
    exact .pure rfl

private theorem goes_blockStatements : Goes openings L.bracketed (blockStatements g) L := by
  apply (goes_repeated (goes_blockStatement? hg L.bracketed)).bind
  intro body
  apply (goes_expect rfl).bind
  intro _
  exact .pure rfl

private theorem goes_blockParams : Goes openings L (blockParams g) L := by
  unfold blockParams
  apply counts_accept
  · apply (goes_paramList hg L.bracketed).bind
    intro params
    apply (goes_expect rfl).bind
    intro _
    exact .pure rfl
  · exact .pure rfl

private theorem goes_blockLiteral : Goes openings L (blockLiteral g) L := by
  rw [blockLiteral_eq]
  apply counts_accept
  · apply (hg.type? L).bind
    intro returns
    apply (goes_blockParams hg L).bind
    intro params
    apply (goes_expect rfl).bind
    intro _
    apply (goes_blockStatements hg L).bind
    intro body
    exact .pure rfl
  · exact goes_call hg L

private theorem goes_unary : Goes openings L (unary g) L := by
  unfold unary
  apply Counts.peek
  intro c hc
  split
  · next op hop =>
    have hkind : openings.after L c.current.kind = L := by
      rw [unaryOp?_eq_some hop]
      cases op <;> rfl
    apply CountsAt.advance hc hkind
    intro _
    apply (hg.unary L).bind
    intro e
    exact .pure rfl
  · exact goes_blockLiteral hg L c hc

private theorem goes_index : Goes openings L (index g) L := by
  apply (goes_unary hg L).bind
  intro e
  apply goes_extend
  intro e
  unfold indexSuffix?
  apply counts_accept
  · apply (hg.expression L.bracketed).bind
    intro place
    apply (goes_expect rfl).bind
    intro _
    exact .pure rfl
  · exact .pure rfl

omit hg in
private theorem goes_binaryLevel {operand : Parse Expr} {op? : Kind → Option BinaryOp}
    (hop : ∀ kind op, op? kind = some op → openings.after L kind = L) (h : Goes openings L operand L) :
    Goes openings L (binaryLevel operand op?) L := by
  apply h.bind
  intro e
  apply goes_extend
  intro e
  unfold binarySuffix?
  apply Counts.peek
  intro c hc
  split
  · next op hkind =>
    apply CountsAt.advance hc (hop _ op hkind)
    intro _
    apply h.bind
    intro r
    exact .pure rfl
  · exact .stay hc rfl fun _ => rfl

omit hg in
private theorem goes_logicalLevel {operand : Parse Expr} {op : LogicOp} (h : Goes openings L operand L) :
    Goes openings L (logicalLevel operand op) L := by
  apply h.bind
  intro e
  apply goes_extend
  intro e
  have hop : openings.after L (.symbol op.symbol) = L := by cases op <;> rfl
  unfold logicalSuffix?
  apply counts_accept
  · rw [hop]
    apply h.bind
    intro r
    exact .pure rfl
  · exact .pure rfl

private theorem goes_factor : Goes openings L (factor g) L := by
  apply goes_binaryLevel _ _ (goes_index hg L)
  intro kind op h
  unfold productOp? at h
  split at h <;> cases h <;> rfl

private theorem goes_disjunction : Goes openings L (disjunction g) L := by
  have hterm : Goes openings L (term g) L := by
    apply goes_binaryLevel _ _ (goes_factor hg L)
    intro kind op h
    unfold sumOp? at h
    split at h <;> cases h <;> rfl
  have hcomparison : Goes openings L (comparison g) L := by
    apply goes_binaryLevel _ _ hterm
    intro kind op h
    unfold comparisonOp? at h
    split at h <;> cases h <;> rfl
  have hequality : Goes openings L (equality g) L := by
    apply goes_binaryLevel _ _ hcomparison
    intro kind op h
    unfold equalityOp? at h
    split at h <;> cases h <;> rfl
  exact goes_logicalLevel L (goes_logicalLevel L hequality)

omit hg in
private theorem goes_assignTo (target : Expr) (op : AssignOp) (pos : Pos) (value : Expr) (fault : SyntaxFault) :
    Goes openings L (assignTo target op pos value fault) L := by
  unfold assignTo
  split
  · exact .pure rfl
  · exact .pure rfl
  · exact .pure rfl
  · apply (goes_fail _ L).bind
    intro _
    exact .pure rfl

private theorem goes_increment : Goes openings L (increment g) L := by
  unfold increment
  apply (goes_disjunction hg L).bind
  intro target
  apply goes_current.bind
  intro t
  apply counts_accept
  · exact goes_assignTo L target _ _ _ _
  · exact .pure rfl

private theorem goes_assignment : Goes openings L (assignment g) L := by
  unfold assignment
  apply (goes_increment hg L).bind
  intro target
  apply Counts.peek
  intro c hc
  split
  · next op hop =>
    have hkind : openings.after L c.current.kind = L := by
      rw [(assignOp?_eq_some hop).1]
      cases op <;> rfl
    apply CountsAt.advance hc hkind
    intro _
    apply (hg.assignment L).bind
    intro value
    exact goes_assignTo L target _ _ _ _
  · exact .stay hc rfl fun _ => rfl

private theorem goes_expression : Goes openings L (expression g) L := by
  unfold expression
  apply (goes_assignment hg L).bind
  intro condition
  apply counts_accept
  · apply (hg.expression L).bind
    intro yes
    apply (goes_expect rfl).bind
    intro _
    apply (hg.expression L).bind
    intro no
    exact .pure rfl
  · exact .pure rfl

/-! ### Statements -/

private theorem goes_initialValue : Goes openings L (initialValue g) L := by
  unfold initialValue
  apply counts_accept
  · exact .map (hg.expression L) fun _ => rfl
  · exact .pure rfl

private theorem goes_varDeclaration (name : Name) (type : TypeExpr) :
    Goes openings L (varDeclaration g name type) L := by
  rw [varDeclaration_eq]
  apply (goes_initialValue hg L).bind
  intro init
  apply (goes_expect rfl).bind
  intro _
  exact .pure rfl

private theorem goes_functionDeclaration (name : Name) :
    Goes openings L.bracketed (functionDeclaration g name) L := by
  unfold functionDeclaration
  apply (goes_paramList hg L.bracketed).bind
  intro params
  apply (goes_expect rfl).bind
  intro _
  apply counts_accept
  · exact .pure rfl
  · apply (goes_expect rfl).bind
    intro _
    apply (goes_blockStatements hg L).bind
    intro body
    exact .pure rfl

omit hg in
private theorem goes_declaredName (type : TypeExpr) : Goes openings L (declaredName type) L := by
  unfold declaredName
  split
  · exact .pure rfl
  · apply (goes_expectOr (List.forall_mem_singleton.2 rfl)).bind
    intro name
    exact .pure rfl
  · apply (goes_expect rfl).bind
    intro name
    exact .pure rfl

private theorem goes_declaration (type : TypeExpr) : Goes openings L (declaration g type) L := by
  unfold declaration
  apply (goes_declaredName L type).bind
  intro name
  apply counts_accept
  · apply (goes_functionDeclaration hg L name).bind
    intro decl
    exact .pure rfl
  · apply (goes_varDeclaration hg L name type).bind
    intro decl
    exact .pure rfl

private theorem goes_expressionStatement : Goes openings L (expressionStatement g) L := by
  apply (goes_expression hg L).bind
  intro e
  apply (goes_accept rfl).bind
  intro _
  exact .pure rfl

private theorem goes_block : Goes openings L.bracketed (block g) L := by
  apply (goes_blockStatements hg L).bind
  intro body
  apply (goes_accept rfl).bind
  intro _
  exact .pure rfl

private theorem goes_body : Goes openings L (body g) L := by
  unfold body
  apply counts_accept
  · exact goes_block hg L
  · exact hg.statement L

private theorem goes_condition : Goes openings L (condition g) L := by
  apply (goes_expect rfl).bind
  intro _
  apply (hg.expression L.bracketed).bind
  intro e
  apply (goes_expect rfl).bind
  intro _
  exact .pure rfl

private theorem goes_elseBranch : Goes openings L (elseBranch g) L := by
  unfold elseBranch
  apply counts_accept
  · exact .map (goes_body hg L) fun _ => rfl
  · exact .pure rfl

private theorem goes_ifStatement : Goes openings L (ifStatement g) L := by
  rw [ifStatement_eq]
  apply (goes_condition hg L).bind
  intro e
  apply (goes_body hg L).bind
  intro yes
  apply (goes_elseBranch hg L).bind
  intro no
  exact .pure rfl

private theorem goes_whileStatement : Goes openings L (whileStatement g) L := by
  apply (goes_condition hg L).bind
  intro e
  apply (goes_body hg L).bind
  intro b
  exact .pure rfl

private theorem goes_forInit : Goes openings L (forInit g) L := by
  unfold forInit
  apply counts_accept
  · exact .pure rfl
  · apply (hg.type? L).bind
    intro o
    cases o with
    | some type =>
      apply (goes_declaration hg L type).bind
      intro t
      exact .pure rfl
    | none =>
      apply (goes_expressionStatement hg L).bind
      intro t
      exact .pure rfl

private theorem goes_forCondition : Goes openings L (forCondition g) L := by
  unfold forCondition
  apply counts_accept
  · exact .pure rfl
  · apply (hg.expression L).bind
    intro e
    apply (goes_expect rfl).bind
    intro _
    exact .pure rfl

private theorem goes_expressionBefore (closing : Symbol) : Goes openings L (expressionBefore g closing) L := by
  unfold expressionBefore
  apply (goes_check _).bind
  intro b
  split
  · exact .pure rfl
  · exact .map (hg.expression L) fun _ => rfl

private theorem goes_forStatement : Goes openings L (forStatement g) L := by
  rw [forStatement_eq]
  apply (goes_expect rfl).bind
  intro _
  apply (goes_forInit hg L.bracketed).bind
  intro init
  apply (goes_forCondition hg L.bracketed).bind
  intro condition
  apply (goes_expressionBefore hg L.bracketed .rpar).bind
  intro step
  apply (goes_expect rfl).bind
  intro _
  apply (goes_body hg L).bind
  intro b
  exact .pure rfl

private theorem goes_returnStatement : Goes openings L (returnStatement g) L := by
  rw [returnStatement_eq]
  apply (goes_expressionBefore hg L .semi).bind
  intro value
  apply (goes_expect rfl).bind
  intro _
  exact .pure rfl

private theorem goes_printStatement : Goes openings L (printStatement g) L := by
  apply (hg.expression L).bind
  intro e
  apply (goes_expect rfl).bind
  intro _
  exact .pure rfl

omit hg in
private theorem goes_typedefRest (type : TypeExpr) : Goes openings L (typedefRest type) L := by
  have hname : Goes openings L (typedefName type) L := by
    unfold typedefName
    split
    · exact .pure rfl
    · apply (goes_expect rfl).bind
      intro name
      exact .pure rfl
  have hadd (name : Name) :
      Goes openings L (modify fun c : Cursor => { c with typedefs := c.typedefs.add name.text }) L :=
    goes_modify (fun _ => rfl) (fun _ => rfl)
  unfold typedefRest
  apply hname.bind
  intro name
  apply (goes_expect rfl).bind
  intro _
  apply (hadd name).bind
  intro _
  exact .pure rfl

private theorem goes_typedefStatement : Goes openings L (typedefStatement g) L := by
  rw [typedefStatement_eq]
  apply (hg.type? L).bind
  intro o
  cases o with
  | none =>
    apply (goes_fail _ L).bind
    intro _
    apply (goes_expect rfl).bind
    intro name
    exact .pure rfl
  | some type => exact goes_typedefRest L type

private theorem goes_neededType (fault : SyntaxFault) : Goes openings L (neededType g fault) L := by
  unfold neededType
  apply (hg.type? L).bind
  intro o
  cases o with
  | some type => exact .pure rfl
  | none =>
    apply (goes_fail _ L).bind
    intro _
    exact .pure rfl

private theorem goes_selectorPart : Goes openings L (selectorPart g) L := by
  rw [selectorPart_eq]
  apply (goes_expect rfl).bind
  intro _
  apply (goes_neededType hg L.bracketed .expectedType).bind
  intro type
  apply (goes_expect rfl).bind
  intro _
  apply (goes_expect rfl).bind
  intro name
  exact .pure rfl

private theorem goes_selectorSuffix? : Goes openings L (selectorSuffix? g) L := by
  unfold selectorSuffix?
  apply counts_accept
  · apply (goes_expect rfl).bind
    intro _
    apply (goes_selectorPart hg L).bind
    intro param
    exact .pure rfl
  · exact .pure rfl

private theorem goes_methodParams : Goes openings L (methodParams g) L := by
  unfold methodParams
  apply counts_accept
  · apply (goes_selectorPart hg L).bind
    intro first
    apply (goes_repeated (goes_selectorSuffix? hg L)).bind
    intro others
    exact .pure rfl
  · exact .pure rfl

private theorem goes_methodBody : Goes openings L (methodBody g) L := by
  unfold methodBody
  apply counts_accept
  · exact goes_blockStatements hg L
  · apply (goes_expect rfl).bind
    intro _
    exact .pure rfl

private theorem goes_method (isStatic : Bool) : Goes openings L (method g isStatic) L := by
  rw [method_eq]
  apply (goes_selectorPart hg L).bind
  intro head
  apply (goes_methodParams hg L).bind
  intro params
  apply (goes_methodBody hg L).bind
  intro body
  exact .pure rfl

omit hg in
private theorem goes_propertyAttributes : Goes openings L propertyAttributes L := by
  have hattribute : ∀ kind, (decide (kind = .ident) || decide (kind = .keyword .weak)) = true →
      openings.after L.bracketed kind = L.bracketed := by
    intro kind hkind
    simp only [Bool.or_eq_true, decide_eq_true_eq] at hkind
    rcases hkind with rfl | rfl <;> rfl
  unfold propertyAttributes
  apply counts_accept
  · apply (goes_commaSeparated rfl (goes_accept? hattribute)).bind
    intro _
    apply (goes_expect rfl).bind
    intro _
    exact .pure rfl
  · exact .pure rfl

private theorem goes_property : Goes openings L (property g) L := by
  have hkinds : ∀ kind ∈ [Kind.ident, .classIdent], openings.after L kind = L := by
    intro kind hkind
    fin_cases hkind <;> rfl
  rw [property_eq]
  apply (goes_propertyAttributes L).bind
  intro _
  apply (goes_neededType hg L .expectedPropertyType).bind
  intro type
  apply (goes_accept rfl).bind
  intro _
  apply (goes_expectOr hkinds).bind
  intro name
  exact goes_varDeclaration hg L _ type

omit hg in
private theorem goes_inSection : Goes openings L inSection L := by
  apply (goes_check _).bind
  intro _
  apply goes_atEnd.bind
  intro _
  apply goes_hadError.bind
  intro _
  exact .pure rfl

omit hg in
private theorem goes_methodSign? : Goes openings L methodSign? L := by
  have hsign : ∀ kind, (decide (kind = .symbol .minus) || decide (kind = .symbol .plus)) = true →
    openings.after L kind = L := by
    intro kind hkind
    simp only [Bool.or_eq_true, decide_eq_true_eq] at hkind
    rcases hkind with rfl | rfl <;> rfl
  apply (goes_accept? hsign).bind
  intro t
  exact .pure rfl

private theorem goes_interfaceMember? : Goes openings L (interfaceMember? g) L := by
  unfold interfaceMember?
  apply (goes_inSection L).bind
  intro b
  split
  · apply (goes_methodSign? L).bind
    intro o
    cases o with
    | some isStatic =>
      apply (goes_method hg L isStatic).bind
      intro decl
      exact .pure rfl
    | none =>
      apply counts_accept
      · apply (goes_property hg L).bind
        intro decl
        exact .pure rfl
      · apply (goes_fail _ L).bind
        intro _
        exact .pure rfl
  · exact .pure rfl

private theorem goes_implementationMember? : Goes openings L (implementationMember? g) L := by
  unfold implementationMember?
  apply (goes_inSection L).bind
  intro b
  split
  · apply (goes_methodSign? L).bind
    intro o
    cases o with
    | some isStatic =>
      apply (goes_method hg L isStatic).bind
      intro decl
      exact .pure rfl
    | none =>
      apply (goes_fail _ L).bind
      intro _
      exact .pure rfl
  · exact .pure rfl

private theorem goes_interfaceMembers : Goes openings L (interfaceMembers g) L := by
  apply (goes_repeated (goes_interfaceMember? hg L)).bind
  intro turns
  exact .pure rfl

private theorem goes_implementationMethods : Goes openings L (implementationMethods g) L := by
  apply (goes_repeated (goes_implementationMember? hg L)).bind
  intro turns
  exact .pure rfl

omit hg in
private theorem goes_superclassName : Goes openings L superclassName L := by
  unfold superclassName
  apply counts_accept
  · apply (goes_expect rfl).bind
    intro t
    exact .pure rfl
  · exact .pure rfl

private theorem goes_classDeclaration : Goes openings L.sectioned (classDeclaration g) L := by
  rw [classDeclaration_eq]
  apply (goes_expect rfl).bind
  intro name
  apply (goes_superclassName L.sectioned).bind
  intro superclass
  apply (goes_interfaceMembers hg L.sectioned).bind
  intro members
  apply (goes_expect rfl).bind
  intro _
  exact .pure rfl

omit hg in
private theorem goes_category : Goes openings L category L := by
  unfold category
  apply counts_accept
  · apply (goes_accept rfl).bind
    intro _
    apply (goes_accept rfl).bind
    intro _
    apply (goes_expect rfl).bind
    intro _
    exact .pure rfl
  · exact .pure rfl

private theorem goes_classImplementation : Goes openings L.sectioned (classImplementation g) L := by
  rw [classImplementation_eq]
  apply (goes_expect rfl).bind
  intro name
  apply (goes_category L.sectioned).bind
  intro _
  apply (goes_implementationMethods hg L.sectioned).bind
  intro methods
  apply (goes_expect rfl).bind
  intro _
  exact .pure rfl

private theorem goes_statement : Goes openings L (statement g) L := by
  unfold statement
  apply Counts.peek
  intro c hc
  split
  case h_1 hkind => exact .advance hc (congrArg _ hkind) fun _ => goes_block hg L
  case h_2 hkind => exact .advance hc (congrArg _ hkind) fun _ => goes_ifStatement hg L
  case h_3 hkind => exact .advance hc (congrArg _ hkind) fun _ => goes_returnStatement hg L
  case h_4 hkind => exact .advance hc (congrArg _ hkind) fun _ => goes_whileStatement hg L
  case h_5 hkind => exact .advance hc (congrArg _ hkind) fun _ => goes_forStatement hg L
  case h_6 hkind => exact .advance hc (congrArg _ hkind) fun _ => goes_printStatement hg L
  case h_7 hkind => exact .advance hc (congrArg _ hkind) fun _ => goes_classDeclaration hg L
  case h_8 hkind => exact .advance hc (congrArg _ hkind) fun _ => goes_classImplementation hg L
  case h_9 hkind => exact .advance hc (congrArg _ hkind) fun _ => goes_typedefStatement hg L
  case h_10 => exact goes_expressionStatement hg L c hc

private theorem goes_start : Goes openings L (start g) L := by
  apply (goes_type? hg L).bind
  intro o
  cases o with
  | some type => exact goes_declaration hg L type
  | none => exact goes_statement hg L

end Rules

end Parse

/-- All rules of the grammar end at the level at which they begin. -/
private theorem grammar_levels (n : Nat) : (grammar n).Levels := by
  induction n with
  | zero =>
    exact ⟨fun _ => goes_cutOff _, fun _ => goes_cutOff _, fun _ => goes_cutOff _, fun _ => goes_cutOff _,
      fun _ => goes_cutOff _, fun _ => goes_cutOff _, fun _ => goes_cutOff _⟩
  | succ n ih =>
    exact ⟨goes_type? ih, goes_expression ih, goes_assignment ih, goes_factor ih, goes_unary ih, goes_start ih,
      goes_statement ih⟩

private theorem goes_topStatement? {g : Grammar} (hg : g.Levels) (L : Level) :
    Goes openings L (topStatement? g) L := by
  apply goes_atEnd.bind
  intro _
  apply goes_hadError.bind
  intro _
  split
  · exact .pure rfl
  · apply (hg.start L).bind
    intro t
    exact .pure rfl

/-- So does the whole program. -/
theorem goes_program (L : Level) : Goes openings L program L :=
  .look fun _ hc => goes_repeated (goes_topStatement? (grammar_levels _) L) _ hc

end ObjScript
