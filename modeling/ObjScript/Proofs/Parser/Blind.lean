import ObjScript.Proofs.Parser.Program
import ObjScript.Proofs.Syntax.Unlocated

/-!
# The parser never looks at places

`Blind f p q` says that `p` and `q` come to the same from cursors that differ in the places of their tokens alone: the
value of `q` is the one of `p` changed by `f`, which takes the places away.  It follows the text of the rules: a place
is only ever copied from a token into what is built, or into an error.
-/

namespace ObjScript

/-- The cursor without the places. -/
def Cursor.unlocated (c : Cursor) : Cursor :=
  { c with rest := c.rest.map Token.unlocated, error? := c.error?.map SyntaxError.unlocated }

namespace Cursor

variable (c : Cursor)

private theorem unlocated_current : c.unlocated.current = c.current.unlocated := by
  obtain ⟨rest, _, _⟩ := c
  cases rest <;> rfl

private theorem unlocated_second : c.unlocated.second = c.second.unlocated := by
  obtain ⟨rest, _, _⟩ := c
  rcases rest with _ | ⟨t, _ | ⟨u, rest⟩⟩ <;> rfl

private theorem unlocated_atEnd : c.unlocated.atEnd = c.atEnd := by
  unfold atEnd
  rw [unlocated_current]
  rfl

private theorem unlocated_advance : c.unlocated.advance = c.advance.unlocated := by
  unfold advance
  rw [unlocated_atEnd]
  split
  · rfl
  · have htail : (c.rest.map Token.unlocated).tail = c.rest.tail.map Token.unlocated := List.map_tail.symm
    exact congrArg (fun rest => { c.unlocated with rest := rest }) htail

private theorem unlocated_hadError : c.unlocated.error?.isSome = c.error?.isSome :=
  Option.isSome_map

private theorem unlocated_fail (fault : SyntaxFault) : c.unlocated.fail fault = (c.fail fault).unlocated := by
  obtain ⟨rest, error?, typedefs⟩ := c
  cases error? <;> cases rest <;> rfl

/-- The tokens that were not read are the same. -/
theorem unlocated_remaining : c.unlocated.remaining = c.remaining.map Token.unlocated := by
  unfold remaining
  rw [unlocated_hadError]
  split <;> rfl

end Cursor

namespace Parse

variable {α β γ δ : Type}

/-- The parsers do the same, up to the places of tokens and of what is built from them. -/
def Blind (f : α → β) (p : Parse α) (q : Parse β) : Prop :=
  ∀ c : Cursor, q.result c.unlocated = ((p.result c).1.map f, (p.result c).2.unlocated)

namespace Blind

variable {f : α → β} {h : γ → δ} {p : Parse α} {q : Parse β}

private theorem pure {a : α} {b : β} (hab : b = f a) : Blind f (Pure.pure a) (Pure.pure b) := by
  intro c
  rw [hab]
  rfl

private theorem throw (b : Number.BadNumeral) : Blind f (throw b) (throw b) :=
  fun _ => rfl

private theorem bind {k : α → Parse γ} {l : β → Parse δ} (hp : Blind f p q) (hk : ∀ a, Blind h (k a) (l (f a))) :
    Blind h (p >>= k) (q >>= l) := by
  intro c
  rw [result_bind, result_bind, hp c]
  cases hc : p.result c with
  | mk r c' =>
    cases r with
    | ok a => exact hk a c'
    | error b => rfl

/-- A parser whose value has no place, followed by another one. -/
private theorem bindSame {p q : Parse α} {k : α → Parse γ} {l : α → Parse δ} (hp : Blind id p q)
    (hk : ∀ a, Blind h (k a) (l a)) : Blind h (p >>= k) (q >>= l) :=
  hp.bind hk

private theorem map {k : α → γ} {l : β → δ} (hp : Blind f p q) (hk : ∀ a, l (f a) = h (k a)) :
    Blind h (k <$> p) (l <$> q) := by
  rw [map_eq_pure_bind, map_eq_pure_bind]
  exact hp.bind fun a => .pure (hk a)

private theorem ite {b b' : Bool} {A B : Parse α} {A' B' : Parse β} (hb : b' = b) (hA : Blind f A A')
    (hB : Blind f B B') :
    Blind f (if b = true then A else B) (if b' = true then A' else B') := by
  rw [hb]
  split
  · exact hA
  · exact hB

/-- A parser that looks at the cursor first. -/
private theorem look {k : Cursor → Parse γ} {l : Cursor → Parse δ}
    (hk : ∀ c : Cursor, Blind h (k c) (l c.unlocated)) :
    Blind h (get >>= k) (get >>= l) := by
  intro c
  rw [result_bind_ok (result_get c), result_bind_ok (result_get c.unlocated)]
  exact hk c c

/-- A change of the cursor that does not touch the places. -/
private theorem modify {k : Cursor → Cursor} (hk : ∀ c, k c.unlocated = (k c).unlocated) :
    Blind id (modify k) (modify k) :=
  fun c => congrArg (Prod.mk (Except.ok ())) (hk c)

end Blind

private theorem blind_current : Blind Token.unlocated current current :=
  fun c => congrArg (fun t => (Except.ok t, c.unlocated)) c.unlocated_current

private theorem blind_advance : Blind Token.unlocated advance advance := by
  intro c
  rw [result_advance, result_advance, c.unlocated_current, c.unlocated_advance]
  rfl

private theorem blind_atEnd : Blind id atEnd atEnd :=
  fun c => congrArg (fun b => (Except.ok b, c.unlocated)) c.unlocated_atEnd

private theorem blind_hadError : Blind id hadError hadError :=
  fun c => congrArg (fun b => (Except.ok b, c.unlocated)) c.unlocated_hadError

private theorem blind_turns : Blind (List.map Token.unlocated) turns turns :=
  fun c => congrArg (fun t => (Except.ok (t :: c.unlocated.rest), c.unlocated)) c.unlocated_current

private theorem blind_cutOff {f : α → β} {a : α} {b : β} (h : b = f a) : Blind f (cutOff a) (cutOff b) := by
  intro c
  rw [h]
  rfl

private theorem blind_fail (fault : SyntaxFault) : Blind id (fail fault) (fail fault) :=
  .modify fun c => c.unlocated_fail fault

private theorem blind_check (kind : Kind) : Blind id (check kind) (check kind) :=
  blind_current.bind fun _ => .pure rfl

private theorem blind_accept? (ok : Kind → Bool) : Blind (Option.map Token.unlocated) (accept? ok) (accept? ok) := by
  unfold accept?
  exact blind_current.bind fun t => .ite rfl (blind_advance.bind fun t => .pure rfl) (.pure rfl)

private theorem blind_accept (kind : Kind) : Blind id (accept kind) (accept kind) :=
  (blind_accept? _).bind fun _ => .pure Option.isSome_map

private theorem blind_expectOr (kinds : List Kind) (fault : Kind → SyntaxFault) :
    Blind Token.unlocated (expectOr kinds fault) (expectOr kinds fault) := by
  unfold expectOr
  refine (blind_accept? _).bind fun o => ?_
  cases o with
  | some t => exact .pure rfl
  | none => exact blind_current.bind fun t => (blind_fail _).bind fun _ => .pure rfl

private theorem blind_expect (kind : Kind) : Blind Token.unlocated (expect kind) (expect kind) :=
  blind_expectOr _ _

/-- A choice that depends on the next token. -/
private theorem blind_ifAccept {kind : Kind} {f : α → β} {A B : Parse α} {A' B' : Parse β} (hA : Blind f A A')
    (hB : Blind f B B') :
    Blind f (accept kind >>= fun b => if b = true then A else B)
    (accept kind >>= fun b => if b = true then A' else B') :=
  (blind_accept kind).bindSame fun _ => .ite rfl hA hB

section Loops

variable {f : α → β}

private theorem blind_many {item : Parse (Option α)} {item' : Parse (Option β)} (h : Blind (Option.map f) item item')
    {turns turns' : List Token} (hturns : turns'.length = turns.length) :
    Blind (List.map f) (many item turns) (many item' turns') := by
  -- the tokens only count the turns
  induction turns generalizing turns' with
  | nil =>
    rw [List.length_eq_zero_iff.1 hturns]
    exact blind_cutOff rfl
  | cons t turns ih =>
    obtain ⟨t', turns', rfl⟩ := List.exists_cons_of_length_eq_add_one hturns
    unfold many
    refine h.bind fun o => ?_
    cases o with
    | none => exact .pure rfl
    | some a => exact (ih (Nat.succ.inj hturns)).bind fun l => .pure rfl

private theorem blind_repeated {item : Parse (Option α)} {item' : Parse (Option β)}
    (h : Blind (Option.map f) item item') :
    Blind (List.map f) (repeated item) (repeated item') :=
  blind_turns.bind fun _ => blind_many h (List.length_map _)

private theorem blind_commaSeparated {item : Parse α} {item' : Parse β} (h : Blind f item item') :
    Blind (List.map f) (commaSeparated item) (commaSeparated item') := by
  refine h.bind fun a => (blind_repeated ?_).bind fun l => .pure rfl
  exact blind_ifAccept (h.bind fun a => .pure rfl) (.pure rfl)

private theorem blind_iterate {step : α → Parse (Option α)} {step' : β → Parse (Option β)}
    (h : ∀ a, Blind (Option.map f) (step a) (step' (f a))) {turns turns' : List Token}
    (hturns : turns'.length = turns.length) (a : α) :
    Blind f (iterate step turns a) (iterate step' turns' (f a)) := by
  induction turns generalizing turns' a with
  | nil =>
    rw [List.length_eq_zero_iff.1 hturns]
    exact blind_cutOff rfl
  | cons t turns ih =>
    obtain ⟨t', turns', rfl⟩ := List.exists_cons_of_length_eq_add_one hturns
    unfold iterate
    refine (h a).bind fun o => ?_
    cases o with
    | none => exact .pure rfl
    | some b => exact ih (Nat.succ.inj hturns) b

private theorem blind_extend {step : α → Parse (Option α)} {step' : β → Parse (Option β)}
    (h : ∀ a, Blind (Option.map f) (step a) (step' (f a))) (a : α) : Blind f (extend a step) (extend (f a) step') :=
  blind_turns.bind fun _ => blind_iterate h (List.length_map _) a

end Loops

end Parse

open Parse

/-- No parser of the grammar looks at places. -/
structure Grammar.Blind (g : Grammar) : Prop where
  type? : Parse.Blind (Option.map TypeExpr.unlocated) g.type? g.type?
  expression : Parse.Blind Expr.unlocated g.expression g.expression
  assignment : Parse.Blind Expr.unlocated g.assignment g.assignment
  factor : Parse.Blind Expr.unlocated g.factor g.factor
  unary : Parse.Blind Expr.unlocated g.unary g.unary
  start : Parse.Blind Stmt.unlocated g.start g.start
  statement : Parse.Blind Stmt.unlocated g.statement g.statement

namespace Parse

variable {g : Grammar}

/-! ### Types -/

/-- The head of a block type without its places. -/
def BlockHead.unlocated (head : BlockHead) : BlockHead :=
  ⟨head.name.map Name.unlocated, head.params.map TypeExpr.unlocated⟩

/-- The heads of a nested block type without their places. -/
def BlockHeads.unlocated (b : BlockHeads) : BlockHeads :=
  { b with heads := b.heads.map BlockHead.unlocated }

private theorem BlockHeads.unlocated_opened (b : BlockHeads) : b.unlocated.opened = b.opened.unlocated := by
  unfold opened unlocated
  rw [List.map_append, List.length_map]
  rfl

private theorem BlockHeads.unlocated_closed (b : BlockHeads) (head : BlockHead) :
    b.unlocated.closed head.unlocated = (b.closed head).unlocated := by
  obtain ⟨heads, pending⟩ := b
  cases pending with
  | nil => rfl
  | cons i outer => exact congrArg (BlockHeads.mk · outer) List.map_set.symm

private theorem BlockHeads.unlocated_type (b : BlockHeads) (base : TypeExpr) :
    b.unlocated.type base.unlocated = (b.type base).unlocated := by
  obtain ⟨heads, pending⟩ := b
  change (heads.map BlockHead.unlocated).foldl (fun returns h => TypeExpr.block returns h.name h.params) _ =
    (heads.foldl (fun returns h => TypeExpr.block returns h.name h.params) base).unlocated
  induction heads generalizing base with
  | nil => rfl
  | cons head heads ih =>
    have hblock : TypeExpr.block base.unlocated head.unlocated.name head.unlocated.params =
        (TypeExpr.block base head.name head.params).unlocated := by
      rw [TypeExpr.unlocated, TypeExpr.unlocatedList_eq]
      rfl
    rw [List.map_cons, List.foldl_cons, List.foldl_cons, hblock]
    exact ih _

private theorem blind_opensBlockType : Blind id opensBlockType opensBlockType := by
  refine .look fun c => .pure ?_
  rw [c.unlocated_current, c.unlocated_second]
  rfl

/-- What is given where something is given stays given. -/
private theorem filterMap_id_map {α β : Type} (f : α → β) (l : List (Option α)) :
    (l.map (Option.map f)).filterMap id = (l.filterMap id).map f := by
  rw [List.filterMap_map, List.map_filterMap]
  rfl

private theorem blind_typeList (hg : g.Blind) : Blind (List.map TypeExpr.unlocated) (typeList g) (typeList g) :=
  (blind_commaSeparated hg.type?).bind fun l => .pure (filterMap_id_map _ l)

private theorem blind_innermostBlock (blocks : BlockHeads) :
    Blind BlockHeads.unlocated (innermostBlock blocks) (innermostBlock blocks.unlocated) := by
  refine blind_opensBlockType.bindSame fun b => .ite rfl ?_ (.pure rfl)
  exact blind_advance.bind fun _ => blind_advance.bind fun _ => .pure blocks.unlocated_opened

private theorem blind_closedBlock (hg : g.Blind) (blocks : BlockHeads) :
    Blind (Option.map BlockHeads.unlocated) (closedBlock g blocks) (closedBlock g blocks.unlocated) := by
  refine (blind_accept? _).bind fun name => blind_ifAccept ?_ ((blind_fail _).bind fun _ => .pure rfl)
  refine (blind_expect _).bind fun _ => (blind_typeList hg).bind fun params => (blind_expect _).bind fun _ => .pure ?_
  rw [Option.map_some, ← BlockHeads.unlocated_closed]
  cases name <;> rfl

private theorem blind_blockHead? (hg : g.Blind) (blocks : BlockHeads) :
    Blind (Option.map BlockHeads.unlocated) (blockHead? g blocks) (blockHead? g blocks.unlocated) := by
  rw [blockHead?_eq, blockHead?_eq]
  refine blind_hadError.bindSame fun b => .ite rfl (.pure rfl) ?_
  exact (blind_innermostBlock blocks).bind fun blocks => blind_closedBlock hg blocks

private theorem blind_blockType (hg : g.Blind) (base : TypeExpr) :
    Blind TypeExpr.unlocated (blockType g base) (blockType g base.unlocated) := by
  refine (blind_expect _).bind fun _ => (blind_expect _).bind fun _ => ?_
  exact (blind_extend (blind_blockHead? hg) _).bind fun blocks => .pure (blocks.unlocated_type base)

private theorem blind_typeName? : Blind (Option.map Token.unlocated) typeName? typeName? := by
  refine .look fun c => ?_
  rw [c.unlocated_current]
  exact blind_accept? _

private theorem blind_type? (hg : g.Blind) :
    Blind (Option.map TypeExpr.unlocated) (Parse.type? g) (Parse.type? g) := by
  unfold Parse.type?
  refine blind_typeName?.bind fun o => ?_
  cases o with
  | none => exact .pure rfl
  | some name =>
    refine (blind_accept _).bindSame fun _ => blind_opensBlockType.bindSame fun b => .ite rfl ?_ (.pure rfl)
    exact (blind_blockType hg (.named name)).bind fun t => .pure rfl

/-! ### Expressions -/

private theorem blind_listBefore (hg : g.Blind) (closing : Symbol) :
    Blind (List.map Expr.unlocated) (listBefore g closing) (listBefore g closing) :=
  (blind_check _).bindSame fun _ => .ite rfl (.pure rfl) (blind_commaSeparated hg.expression)

private theorem blind_arguments (hg : g.Blind) {closing : Symbol} :
    Blind (List.map Expr.unlocated) (arguments g closing) (arguments g closing) := by
  rw [arguments_eq]
  exact (blind_listBefore hg closing).bind fun l => (blind_expect _).bind fun _ => .pure rfl

private theorem blind_primary (hg : g.Blind) : Blind Expr.unlocated (primary g) (primary g) := by
  unfold primary
  refine blind_current.bind fun t => ?_
  obtain ⟨kind, text, pos⟩ := t
  dsimp only [Token.unlocated]
  split
  case h_1 =>
    refine blind_advance.bind fun _ => ?_
    cases Number.read? text with
    | some x => exact .pure rfl
    | none => exact .throw _
  case h_3 =>
    exact blind_advance.bind fun _ => hg.expression.bind fun e => (blind_expect _).bind fun _ => .pure rfl
  case h_4 =>
    refine blind_advance.bind fun _ => (blind_arguments hg).bind fun l => .pure ?_
    rw [Expr.unlocated, Expr.unlocatedList_eq]
  case h_12 => exact (blind_fail _).bind fun _ => .pure rfl
  all_goals exact blind_advance.bind fun _ => .pure rfl

private theorem blind_messageArgument? (hg : g.Blind) :
    Blind (Option.map Expr.unlocated) (messageArgument? g) (messageArgument? g) := by
  refine (blind_check _).bindSame fun _ => blind_atEnd.bindSame fun _ => blind_hadError.bindSame fun _ => ?_
  refine .ite rfl (.pure rfl) ((blind_expect _).bind fun _ => (blind_expect _).bind fun _ => ?_)
  exact hg.expression.bind fun e => .pure rfl

private theorem blind_messageArguments (hg : g.Blind) :
    Blind (List.map Expr.unlocated) (messageArguments g) (messageArguments g) := by
  refine blind_ifAccept ?_ (.pure rfl)
  exact hg.expression.bind fun first => (blind_repeated (blind_messageArgument? hg)).bind fun l => .pure rfl

private theorem blind_messageSend (hg : g.Blind) : Blind Expr.unlocated (messageSend g) (messageSend g) := by
  rw [messageSend_eq]
  refine blind_ifAccept ?_ (blind_primary hg)
  refine hg.factor.bind fun receiver => (blind_expect _).bind fun selector => ?_
  refine (blind_messageArguments hg).bind fun args => (blind_expect _).bind fun _ => .pure ?_
  rw [Expr.unlocated, Expr.unlocatedList_eq]
  rfl

private theorem blind_callSuffix? (hg : g.Blind) (e : Expr) :
    Blind (Option.map Expr.unlocated) (callSuffix? g e) (callSuffix? g e.unlocated) := by
  refine blind_ifAccept ?_ (blind_ifAccept ?_ (.pure rfl))
  · refine (blind_arguments hg).bind fun l => .pure ?_
    rw [Option.map_some, Expr.unlocated, Expr.unlocatedList_eq]
  · exact (blind_expect _).bind fun t => .pure rfl

private theorem blind_call (hg : g.Blind) : Blind Expr.unlocated (call g) (call g) :=
  (blind_messageSend hg).bind (blind_extend (blind_callSuffix? hg))

private theorem blind_param? (hg : g.Blind) : Blind (Option.map Param.unlocated) (param? g) (param? g) := by
  unfold param?
  refine hg.type?.bind fun o => ?_
  cases o with
  | none => exact .pure rfl
  | some type =>
    dsimp only [Option.map_some]
    rw [TypeExpr.unlocated_blockName?]
    cases type.blockName? with
    | some name => exact .pure rfl
    | none =>
      refine (blind_accept? _).bind fun o => ?_
      cases o with
      | some name => exact .pure rfl
      | none =>
        -- a `void` without a name is no parameter, and only the kind of its token tells
        cases type with
        | named token =>
          obtain ⟨kind, text, pos⟩ := token
          cases kind with
          | keyword k =>
            cases k with
            | voidType => exact .pure rfl
            | _ => exact (blind_expect _).bind fun t => .pure rfl
          | _ => exact (blind_expect _).bind fun t => .pure rfl
        | missing | block => exact (blind_expect _).bind fun t => .pure rfl

private theorem blind_paramList (hg : g.Blind) : Blind (List.map Param.unlocated) (paramList g) (paramList g) := by
  refine (blind_check _).bindSame fun b => .ite rfl (.pure rfl) ?_
  exact (blind_commaSeparated (blind_param? hg)).bind fun l => .pure (filterMap_id_map _ l)

private theorem blind_blockStatement? (hg : g.Blind) :
    Blind (Option.map Stmt.unlocated) (blockStatement? g) (blockStatement? g) := by
  refine (blind_check _).bindSame fun _ => blind_atEnd.bindSame fun _ => blind_hadError.bindSame fun _ => ?_
  exact .ite rfl (.pure rfl) (hg.start.bind fun s => .pure rfl)

private theorem blind_blockStatements (hg : g.Blind) :
    Blind (List.map Stmt.unlocated) (blockStatements g) (blockStatements g) :=
  (blind_repeated (blind_blockStatement? hg)).bind fun _ => (blind_expect _).bind fun _ => .pure rfl

private theorem blind_blockParams (hg : g.Blind) : Blind (List.map Param.unlocated) (blockParams g) (blockParams g) :=
  blind_ifAccept ((blind_paramList hg).bind fun _ => (blind_expect _).bind fun _ => .pure rfl) (.pure rfl)

private theorem blind_blockLiteral (hg : g.Blind) : Blind Expr.unlocated (blockLiteral g) (blockLiteral g) := by
  rw [blockLiteral_eq]
  refine blind_ifAccept (hg.type?.bind fun returns => ?_) (blind_call hg)
  refine (blind_blockParams hg).bind fun params => (blind_expect _).bind fun _ => ?_
  refine (blind_blockStatements hg).bind fun b => .pure ?_
  rw [Expr.unlocated, Stmt.unlocatedList_eq]

private theorem blind_unary (hg : g.Blind) : Blind Expr.unlocated (unary g) (unary g) := by
  unfold unary
  refine blind_current.bind fun t => ?_
  dsimp only [Token.unlocated]
  cases unaryOp? t.kind with
  | some op => exact blind_advance.bind fun _ => hg.unary.bind fun e => .pure rfl
  | none => exact blind_blockLiteral hg

private theorem blind_indexSuffix? (hg : g.Blind) (e : Expr) :
    Blind (Option.map Expr.unlocated) (indexSuffix? g e) (indexSuffix? g e.unlocated) :=
  blind_ifAccept (hg.expression.bind fun _ => (blind_expect _).bind fun _ => .pure rfl) (.pure rfl)

private theorem blind_index (hg : g.Blind) : Blind Expr.unlocated (index g) (index g) :=
  (blind_unary hg).bind (blind_extend (blind_indexSuffix? hg))

private theorem blind_binaryLevel {operand : Parse Expr} {op? : Kind → Option BinaryOp}
    (h : Blind Expr.unlocated operand operand) :
    Blind Expr.unlocated (binaryLevel operand op?) (binaryLevel operand op?) := by
  refine h.bind (blind_extend fun e => blind_current.bind fun t => ?_)
  dsimp only [Token.unlocated]
  cases op? t.kind with
  | some op => exact blind_advance.bind fun _ => h.bind fun r => .pure rfl
  | none => exact .pure rfl

private theorem blind_logicalLevel {operand : Parse Expr} {op : LogicOp} (h : Blind Expr.unlocated operand operand) :
    Blind Expr.unlocated (logicalLevel operand op) (logicalLevel operand op) :=
  h.bind (blind_extend fun _ => blind_ifAccept (h.bind fun _ => .pure rfl) (.pure rfl))

private theorem blind_factor (hg : g.Blind) : Blind Expr.unlocated (factor g) (factor g) :=
  blind_binaryLevel (blind_index hg)

private theorem blind_term (hg : g.Blind) : Blind Expr.unlocated (term g) (term g) :=
  blind_binaryLevel (blind_factor hg)

private theorem blind_comparison (hg : g.Blind) : Blind Expr.unlocated (comparison g) (comparison g) :=
  blind_binaryLevel (blind_term hg)

private theorem blind_equality (hg : g.Blind) : Blind Expr.unlocated (equality g) (equality g) :=
  blind_binaryLevel (blind_comparison hg)

private theorem blind_conjunction (hg : g.Blind) : Blind Expr.unlocated (conjunction g) (conjunction g) :=
  blind_logicalLevel (blind_equality hg)

private theorem blind_disjunction (hg : g.Blind) : Blind Expr.unlocated (disjunction g) (disjunction g) :=
  blind_logicalLevel (blind_conjunction hg)

/-- The place of the operator goes into the assignment, and whether it can be one depends on the target alone. -/
private theorem blind_assignTo (target value : Expr) (op : AssignOp) (pos : Pos) (fault : SyntaxFault) :
    Blind Expr.unlocated (assignTo target op pos value fault)
      (assignTo target.unlocated op .nowhere value.unlocated fault) := by
  cases target with
  | «variable» | get | index => exact .pure rfl
  | _ => exact (blind_fail _).bind fun _ => .pure rfl

private theorem blind_increment (hg : g.Blind) : Blind Expr.unlocated (increment g) (increment g) := by
  refine (blind_disjunction hg).bind fun target => blind_current.bind fun t => ?_
  exact blind_ifAccept (blind_assignTo target (.literal (.number 1)) .increment t.pos _) (.pure rfl)

private theorem blind_assignment (hg : g.Blind) : Blind Expr.unlocated (assignment g) (assignment g) := by
  unfold assignment
  refine (blind_increment hg).bind fun target => blind_current.bind fun t => ?_
  dsimp only [Token.unlocated]
  cases assignOp? t.kind with
  | some op =>
    exact blind_advance.bind fun _ => hg.assignment.bind fun value => blind_assignTo target value op t.pos _
  | none => exact .pure rfl

theorem blind_expression (hg : g.Blind) : Blind Expr.unlocated (expression g) (expression g) := by
  refine (blind_assignment hg).bind fun condition => blind_ifAccept ?_ (.pure rfl)
  refine hg.expression.bind fun yes => (blind_expect _).bind fun _ => ?_
  exact hg.expression.bind fun no => .pure rfl

/-! ### Statements -/

private theorem blind_initialValue (hg : g.Blind) :
    Blind (Option.map Expr.unlocated) (initialValue g) (initialValue g) :=
  blind_ifAccept (hg.expression.map fun _ => rfl) (.pure rfl)

private theorem blind_varDeclaration (hg : g.Blind) (name : Name) (type : TypeExpr) :
    Blind VarDecl.unlocated (varDeclaration g name type) (varDeclaration g name.unlocated type.unlocated) := by
  rw [varDeclaration_eq, varDeclaration_eq]
  refine (blind_initialValue hg).bind fun init => (blind_expect _).bind fun _ => .pure ?_
  rw [VarDecl.unlocated, Expr.unlocatedOption_eq]

private theorem blind_functionDeclaration (hg : g.Blind) (name : Name) :
    Blind FunctionDecl.unlocated (functionDeclaration g name) (functionDeclaration g name.unlocated) := by
  refine (blind_paramList hg).bind fun params => (blind_expect _).bind fun _ => ?_
  refine blind_ifAccept (.pure rfl) ((blind_expect _).bind fun _ => (blind_blockStatements hg).bind fun body =>
    .pure ?_)
  rw [FunctionDecl.unlocated, Stmt.unlocatedList_eq]

private theorem blind_declaredName (type : TypeExpr) :
    Blind Name.unlocated (declaredName type) (declaredName type.unlocated) := by
  cases type with
  | block _ name _ =>
    cases name with
    | some name => exact .pure rfl
    | none => exact (blind_expectOr _ _).bind fun t => .pure rfl
  | missing | named => exact (blind_expect _).bind fun t => .pure rfl

private theorem blind_declaration (hg : g.Blind) (type : TypeExpr) :
    Blind Stmt.unlocated (declaration g type) (declaration g type.unlocated) := by
  refine (blind_declaredName type).bind fun name => blind_ifAccept ?_ ?_
  · exact (blind_functionDeclaration hg name).bind fun d => .pure rfl
  · exact (blind_varDeclaration hg name type).bind fun d => .pure rfl

private theorem blind_expressionStatement (hg : g.Blind) :
    Blind Stmt.unlocated (expressionStatement g) (expressionStatement g) :=
  (blind_expression hg).bind fun _ => (blind_accept _).bindSame fun _ => .pure rfl

private theorem blind_block (hg : g.Blind) : Blind Stmt.unlocated (block g) (block g) := by
  refine (blind_blockStatements hg).bind fun body => (blind_accept _).bindSame fun _ => .pure ?_
  rw [Stmt.unlocated, Stmt.unlocatedList_eq]

private theorem blind_body (hg : g.Blind) : Blind Stmt.unlocated (body g) (body g) :=
  blind_ifAccept (blind_block hg) hg.statement

private theorem blind_condition (hg : g.Blind) : Blind Expr.unlocated (condition g) (condition g) :=
  (blind_expect _).bind fun _ => hg.expression.bind fun _ => (blind_expect _).bind fun _ => .pure rfl

private theorem blind_elseBranch (hg : g.Blind) : Blind (Option.map Stmt.unlocated) (elseBranch g) (elseBranch g) :=
  blind_ifAccept ((blind_body hg).map fun _ => rfl) (.pure rfl)

private theorem blind_ifStatement (hg : g.Blind) : Blind Stmt.unlocated (ifStatement g) (ifStatement g) := by
  rw [ifStatement_eq]
  refine (blind_condition hg).bind fun c => (blind_body hg).bind fun yes => (blind_elseBranch hg).bind fun no =>
    .pure ?_
  rw [Stmt.unlocated, Stmt.unlocatedOption_eq]

private theorem blind_whileStatement (hg : g.Blind) : Blind Stmt.unlocated (whileStatement g) (whileStatement g) :=
  (blind_condition hg).bind fun _ => (blind_body hg).bind fun _ => .pure rfl

private theorem blind_forInit (hg : g.Blind) : Blind (Option.map Stmt.unlocated) (forInit g) (forInit g) := by
  refine blind_ifAccept (.pure rfl) (hg.type?.bind fun o => ?_)
  cases o with
  | some type => exact (blind_declaration hg type).bind fun s => .pure rfl
  | none => exact (blind_expressionStatement hg).bind fun s => .pure rfl

private theorem blind_forCondition (hg : g.Blind) :
    Blind (Option.map Expr.unlocated) (forCondition g) (forCondition g) :=
  blind_ifAccept (.pure rfl) (hg.expression.bind fun _ => (blind_expect _).bind fun _ => .pure rfl)

private theorem blind_expressionBefore (hg : g.Blind) (closing : Symbol) :
    Blind (Option.map Expr.unlocated) (expressionBefore g closing) (expressionBefore g closing) :=
  (blind_check _).bindSame fun _ => .ite rfl (.pure rfl) (hg.expression.map fun _ => rfl)

private theorem blind_forStatement (hg : g.Blind) : Blind Stmt.unlocated (forStatement g) (forStatement g) := by
  rw [forStatement_eq]
  refine (blind_expect _).bind fun _ => (blind_forInit hg).bind fun init => (blind_forCondition hg).bind fun c => ?_
  refine (blind_expressionBefore hg .rpar).bind fun step => (blind_expect _).bind fun _ => ?_
  refine (blind_body hg).bind fun b => .pure ?_
  rw [Stmt.unlocated, Stmt.unlocatedOption_eq, Expr.unlocatedOption_eq, Expr.unlocatedOption_eq]

private theorem blind_returnStatement (hg : g.Blind) :
    Blind Stmt.unlocated (returnStatement g) (returnStatement g) := by
  rw [returnStatement_eq]
  refine (blind_expressionBefore hg .semi).bind fun value => (blind_expect _).bind fun _ => .pure ?_
  rw [Stmt.unlocated, Expr.unlocatedOption_eq]

private theorem blind_printStatement (hg : g.Blind) : Blind Stmt.unlocated (printStatement g) (printStatement g) :=
  hg.expression.bind fun _ => (blind_expect _).bind fun _ => .pure rfl

private theorem blind_typedefName (type : TypeExpr) :
    Blind Name.unlocated (typedefName type) (typedefName type.unlocated) := by
  unfold typedefName
  rw [TypeExpr.unlocated_blockName?]
  cases type.blockName? with
  | some name => exact .pure rfl
  | none => exact (blind_expect _).bind fun t => .pure rfl

private theorem blind_typedefRest (type : TypeExpr) :
    Blind Stmt.unlocated (typedefRest type) (typedefRest type.unlocated) := by
  refine (blind_typedefName type).bind fun name => (blind_expect _).bind fun _ => ?_
  exact Blind.bindSame (.modify fun _ => rfl) fun _ => .pure rfl

private theorem blind_typedefStatement (hg : g.Blind) :
    Blind Stmt.unlocated (typedefStatement g) (typedefStatement g) := by
  rw [typedefStatement_eq]
  refine hg.type?.bind fun o => ?_
  cases o with
  | none => exact (blind_fail _).bindSame fun _ => (blind_expect _).bind fun t => .pure rfl
  | some type => exact blind_typedefRest type

private theorem blind_neededType (hg : g.Blind) (fault : SyntaxFault) :
    Blind TypeExpr.unlocated (neededType g fault) (neededType g fault) := by
  refine hg.type?.bind fun o => ?_
  cases o with
  | some type => exact .pure rfl
  | none => exact (blind_fail _).bindSame fun _ => .pure rfl

private theorem blind_selectorPart (hg : g.Blind) : Blind Param.unlocated (selectorPart g) (selectorPart g) := by
  rw [selectorPart_eq]
  refine (blind_expect _).bind fun _ => (blind_neededType hg _).bind fun type => ?_
  exact (blind_expect _).bind fun _ => (blind_expect _).bind fun _ => .pure rfl

private theorem blind_selectorSuffix? (hg : g.Blind) :
    Blind (Option.map Param.unlocated) (selectorSuffix? g) (selectorSuffix? g) :=
  blind_ifAccept ((blind_expect _).bind fun _ => (blind_selectorPart hg).bind fun _ => .pure rfl) (.pure rfl)

private theorem blind_methodParams (hg : g.Blind) :
    Blind (List.map Param.unlocated) (methodParams g) (methodParams g) := by
  refine blind_ifAccept ?_ (.pure rfl)
  exact (blind_selectorPart hg).bind fun first => (blind_repeated (blind_selectorSuffix? hg)).bind fun l => .pure rfl

private theorem blind_methodBody (hg : g.Blind) : Blind (List.map Stmt.unlocated) (methodBody g) (methodBody g) :=
  blind_ifAccept (blind_blockStatements hg) ((blind_expect _).bind fun _ => .pure rfl)

private theorem blind_method (hg : g.Blind) (isStatic : Bool) :
    Blind FunctionDecl.unlocated (method g isStatic) (method g isStatic) := by
  rw [method_eq]
  refine (blind_selectorPart hg).bind fun head => (blind_methodParams hg).bind fun params => ?_
  refine (blind_methodBody hg).bind fun body => .pure ?_
  rw [FunctionDecl.unlocated, Stmt.unlocatedList_eq]
  rfl

private theorem blind_propertyAttributes : Blind id propertyAttributes propertyAttributes := by
  refine blind_ifAccept ?_ (.pure rfl)
  exact (blind_commaSeparated (blind_accept? _)).bind fun _ => (blind_expect _).bind fun _ => .pure rfl

private theorem blind_property (hg : g.Blind) : Blind VarDecl.unlocated (property g) (property g) := by
  rw [property_eq]
  refine blind_propertyAttributes.bindSame fun _ => (blind_neededType hg _).bind fun type => ?_
  refine (blind_accept _).bindSame fun _ => (blind_expectOr _ _).bind fun name => ?_
  exact blind_varDeclaration hg name.toName type

private theorem blind_inSection : Blind id inSection inSection :=
  (blind_check _).bindSame fun _ => blind_atEnd.bindSame fun _ => blind_hadError.bindSame fun _ => .pure rfl

private theorem blind_methodSign? : Blind id methodSign? methodSign? :=
  (blind_accept? _).bind fun o => .pure (by cases o <;> rfl)

/-- A member of a class without its places. -/
def unlocatedMember : FunctionDecl ⊕ VarDecl → FunctionDecl ⊕ VarDecl :=
  Sum.map FunctionDecl.unlocated VarDecl.unlocated

private theorem blind_interfaceMember? (hg : g.Blind) :
    Blind (Option.map (Option.map unlocatedMember)) (interfaceMember? g) (interfaceMember? g) := by
  refine blind_inSection.bindSame fun b => .ite rfl (blind_methodSign?.bindSame fun o => ?_) (.pure rfl)
  cases o with
  | some isStatic => exact (blind_method hg isStatic).bind fun d => .pure rfl
  | none =>
    exact blind_ifAccept ((blind_property hg).bind fun d => .pure rfl) ((blind_fail _).bindSame fun _ => .pure rfl)

private theorem blind_implementationMember? (hg : g.Blind) :
    Blind (Option.map (Option.map FunctionDecl.unlocated)) (implementationMember? g) (implementationMember? g) := by
  refine blind_inSection.bindSame fun b => .ite rfl (blind_methodSign?.bindSame fun o => ?_) (.pure rfl)
  cases o with
  | some isStatic => exact (blind_method hg isStatic).bind fun d => .pure rfl
  | none => exact (blind_fail _).bindSame fun _ => .pure rfl

/-- What the turns of a loop have given. -/
private theorem blind_given {f : α → β} {item : Parse (Option (Option α))} {item' : Parse (Option (Option β))}
    (h : Blind (Option.map (Option.map f)) item item') :
    Blind (List.map f) (repeated item >>= fun l => Pure.pure (l.filterMap id))
      (repeated item' >>= fun l => Pure.pure (l.filterMap id)) :=
  (blind_repeated h).bind fun l => .pure (filterMap_id_map f l)

private theorem filterMap_getLeft?_unlocated (members : List (FunctionDecl ⊕ VarDecl)) :
    (members.map unlocatedMember).filterMap Sum.getLeft? =
      (members.filterMap Sum.getLeft?).map FunctionDecl.unlocated := by
  rw [List.filterMap_map, List.map_filterMap]
  exact congrArg (List.filterMap · members) (funext fun m => by cases m <;> rfl)

private theorem filterMap_getRight?_unlocated (members : List (FunctionDecl ⊕ VarDecl)) :
    (members.map unlocatedMember).filterMap Sum.getRight? =
      (members.filterMap Sum.getRight?).map VarDecl.unlocated := by
  rw [List.filterMap_map, List.map_filterMap]
  exact congrArg (List.filterMap · members) (funext fun m => by cases m <;> rfl)

private theorem blind_superclassName : Blind (Option.map Ref.unlocated) superclassName superclassName :=
  blind_ifAccept ((blind_expect _).bind fun _ => .pure rfl) (.pure rfl)

private theorem blind_classDeclaration (hg : g.Blind) :
    Blind Stmt.unlocated (classDeclaration g) (classDeclaration g) := by
  rw [classDeclaration_eq]
  refine (blind_expect _).bind fun name => blind_superclassName.bind fun superclass => ?_
  refine (blind_given (blind_interfaceMember? hg)).bind fun members => (blind_expect _).bind fun _ => .pure ?_
  rw [filterMap_getLeft?_unlocated, filterMap_getRight?_unlocated, Stmt.unlocated, FunctionDecl.unlocatedList_eq,
    VarDecl.unlocatedList_eq]
  rfl

private theorem blind_category : Blind id category category := by
  refine blind_ifAccept ?_ (.pure rfl)
  exact (blind_accept _).bindSame fun _ => (blind_accept _).bindSame fun _ => (blind_expect _).bind fun _ => .pure rfl

private theorem blind_classImplementation (hg : g.Blind) :
    Blind Stmt.unlocated (classImplementation g) (classImplementation g) := by
  rw [classImplementation_eq]
  refine (blind_expect _).bind fun name => blind_category.bindSame fun _ => ?_
  refine (blind_given (blind_implementationMember? hg)).bind fun methods => (blind_expect _).bind fun _ => .pure ?_
  rw [Stmt.unlocated, FunctionDecl.unlocatedList_eq]
  rfl

private theorem blind_statement (hg : g.Blind) : Blind Stmt.unlocated (statement g) (statement g) := by
  unfold statement
  refine blind_current.bind fun t => ?_
  obtain ⟨kind, text, pos⟩ := t
  dsimp only [Token.unlocated]
  split
  case h_1 => exact blind_advance.bind fun _ => blind_block hg
  case h_2 => exact blind_advance.bind fun _ => blind_ifStatement hg
  case h_3 => exact blind_advance.bind fun _ => blind_returnStatement hg
  case h_4 => exact blind_advance.bind fun _ => blind_whileStatement hg
  case h_5 => exact blind_advance.bind fun _ => blind_forStatement hg
  case h_6 => exact blind_advance.bind fun _ => blind_printStatement hg
  case h_7 => exact blind_advance.bind fun _ => blind_classDeclaration hg
  case h_8 => exact blind_advance.bind fun _ => blind_classImplementation hg
  case h_9 => exact blind_advance.bind fun _ => blind_typedefStatement hg
  case h_10 => exact blind_expressionStatement hg

private theorem blind_start (hg : g.Blind) : Blind Stmt.unlocated (start g) (start g) := by
  unfold start
  refine (blind_type? hg).bind fun o => ?_
  cases o with
  | some type => exact blind_declaration hg type
  | none => exact blind_statement hg

end Parse

theorem grammar_blind (n : Nat) : (grammar n).Blind := by
  induction n with
  | zero => constructor <;> exact blind_cutOff rfl
  | succ n ih =>
    exact ⟨blind_type? ih, blind_expression ih, blind_assignment ih, blind_factor ih, blind_unary ih, blind_start ih,
      blind_statement ih⟩

private theorem blind_topStatement? {g : Grammar} (hg : g.Blind) :
    Parse.Blind (Option.map Stmt.unlocated) (topStatement? g) (topStatement? g) := by
  refine blind_atEnd.bindSame fun _ => blind_hadError.bindSame fun _ => .ite rfl (.pure rfl) ?_
  exact hg.start.bind fun s => .pure rfl

private theorem blind_program : Parse.Blind (List.map Stmt.unlocated) program program := by
  refine .look fun c => ?_
  -- both token lists allow the same nesting
  have hdepth : c.unlocated.rest.length = c.rest.length := List.length_map _
  rw [hdepth]
  exact blind_repeated (blind_topStatement? (grammar_blind _))

/-- From tokens without places the parser builds the same trees without places, notes the same error and stops at the
same token. -/
theorem parse_unlocated (typedefs : Names) (tokens : List Token) :
    parse typedefs (tokens.map Token.unlocated) =
      ((parse typedefs tokens).1.map (List.map Stmt.unlocated), (parse typedefs tokens).2.unlocated) :=
  blind_program (Cursor.ofTokens typedefs tokens)

end ObjScript
