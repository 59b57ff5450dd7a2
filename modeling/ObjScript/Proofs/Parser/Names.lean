import ObjScript.Proofs.Parser.Source
import ObjScript.Proofs.Parser.Spelled
import ObjScript.Proofs.Syntax.Places

/-!
# The tokens that names and operators come from

A reserved word never becomes the name of a variable, a function, a parameter, a class or a member, and `self` and
`super` are always written so (`Node.WellNamed`).  An operator stands where one of the tokens stands (`Node.Marked`).
`Parse.Gives` follows both through the rules of the grammar: every name comes from a token of a kind that reserved
words do not have, and every operator from the token that was read for it.
-/

namespace ObjScript

/-- The text is no reserved word. -/
def IsName (text : String) : Prop :=
  Keyword.ofText? text = none

/-- The kind of the token tells whether it is a reserved word, and the token is one of the source. -/
structure Token.Sorted (S : Token → Prop) (t : Token) : Prop where
  name : t.kind = .ident ∨ t.kind = .classIdent → IsName t.text
  word : ∀ k, t.kind = .keyword k → t.text = k.text
  source : t.kind ≠ .eof → S t

/-- The names of a node are no reserved words, and `self` and `super` are written so. -/
def Node.WellNamed (n : Node) : Prop :=
  (∀ x ∈ n.binds ++ n.fields, IsName x) ∧ match n with
    | .expr (.variable ref) => IsName ref.name.text
    | .expr (.get _ name) => IsName name.text
    | .expr (.selfRef ref) => ref.name.text = "self"
    | .expr (.superRef ref) => ref.name.text = "super"
    | _ => True

/-- The operator of a node and where it stands. -/
def Node.operator? : Node → Option (Symbol × Pos)
  | .expr (.unary op pos _) => some (op.symbol, pos)
  | .expr (.binary _ op pos _) => some (op.symbol, pos)
  | .expr (.assign _ op pos _) | .expr (.set _ _ op pos _) | .expr (.setIndex _ _ op pos _) => some (op.symbol, pos)
  | _ => none

/-- The operator of the node is a token of the source. -/
def Node.Marked (S : Token → Prop) (n : Node) : Prop :=
  ∀ symbol pos, n.operator? = some (symbol, pos) → ∃ t, S t ∧ t.kind = .symbol symbol ∧ t.pos = pos

/-- The node has its names and its operator from the tokens. -/
def Node.ReadFrom (S : Token → Prop) (n : Node) : Prop :=
  n.WellNamed ∧ n.Marked S

/-- All nodes of the expression are read from the tokens. -/
def Expr.ReadFrom (S : Token → Prop) (e : Expr) : Prop := ∀ n ∈ e.nodes, n.ReadFrom S

/-- All nodes of the statement are read from the tokens. -/
def Stmt.ReadFrom (S : Token → Prop) (t : Stmt) : Prop := ∀ n ∈ t.nodes, n.ReadFrom S

/-- The parameter is well named. -/
def Param.WellNamed (p : Param) : Prop := IsName p.name.text

/-- The name is no reserved word, and all nodes of the initial value are read from the tokens. -/
def VarDecl.ReadFrom (S : Token → Prop) (d : VarDecl) : Prop :=
  IsName d.name.text ∧ ∀ n ∈ d.nodes, n.ReadFrom S

/-- The names are no reserved words, and all nodes of the body are read from the tokens. -/
def FunctionDecl.ReadFrom (S : Token → Prop) (d : FunctionDecl) : Prop :=
  IsName d.name.text ∧ (∀ p ∈ d.params, p.WellNamed) ∧ ∀ n ∈ d.nodes, n.ReadFrom S

/-- The name inside a block type is no reserved word. -/
def TypeExpr.WellNamed (t : TypeExpr) : Prop := ∀ name ∈ t.blockName?, IsName name.text

private theorem isName_error : IsName "ERROR" := by
  unfold IsName
  decide

theorem not_isName_self : ¬ IsName "self" := by
  unfold IsName
  decide

theorem not_isName_super : ¬ IsName "super" := by
  unfold IsName
  decide

theorem IsName.not_reserved {x : String} (h : IsName x) : ¬ (x = "self" ∨ x = "super") := by
  rintro (rfl | rfl)
  · exact not_isName_self h
  · exact not_isName_super h

section

variable {S : Token → Prop}

private theorem sorted_eof (p : Pos) : (Token.eof p).Sorted S :=
  ⟨nofun, nofun, fun h => absurd rfl h⟩

/-- Only names have names among the tokens of the kinds. -/
private theorem Token.Sorted.isName {t : Token} (h : t.Sorted S) {kinds : List Kind} (ht : t.kind ∈ kinds)
    (hk : ∀ k ∈ kinds, k = .ident ∨ k = .classIdent) : IsName t.text :=
  h.name (hk _ ht)

/-- The operator that the token stands for is a token of the source. -/
private theorem Token.Sorted.marked {t : Token} (h : t.Sorted S) {symbol : Symbol} (hkind : t.kind = .symbol symbol)
    {n : Node}
    (hn : n.operator? = some (symbol, t.pos)) : n.Marked S := by
  intro symbol' pos hn'
  obtain ⟨rfl, rfl⟩ := Prod.mk.inj (Option.some.inj (hn.symm.trans hn'))
  exact ⟨t, h.source (by rw [hkind]; nofun), hkind, rfl⟩

private theorem Cursor.sorted_current {c : Cursor} (h : ∀ t ∈ c.rest, t.Sorted S) : c.current.Sorted S := by
  unfold Cursor.current
  cases hr : c.rest with
  | nil => exact sorted_eof _
  | cons t rest => exact h t (hr ▸ List.mem_cons_self)

private theorem Cursor.sorted_advance {c : Cursor} (h : ∀ t ∈ c.rest, t.Sorted S) :
    ∀ t ∈ c.advance.rest, t.Sorted S := by
  unfold Cursor.advance
  split
  · exact h
  · exact fun t ht => h t (List.mem_of_mem_tail ht)

/-! ### Parsers that give what is well named -/

namespace Parse

variable {α β : Type}

/-- From tokens that are sorted, the values have the property, and the tokens that are left are sorted. -/
def Gives (S : Token → Prop) (p : Parse α) (P : α → Prop) : Prop :=
  ∀ c a c', (∀ t ∈ c.rest, t.Sorted S) → p.result c = (.ok a, c') → P a ∧ ∀ t ∈ c'.rest, t.Sorted S

namespace Gives

variable {p : Parse α} {P : α → Prop} {f : α → Parse β} {R : β → Prop}

private theorem pure {a : α} (ha : P a) : Gives S (Pure.pure a) P := by
  rintro c _ _ hc ⟨⟩
  exact ⟨ha, hc⟩

private theorem throw (b : Number.BadNumeral) : Gives S (throw b) P := by
  rintro c _ _ - ⟨⟩

private theorem bind (h : Gives S p P) (hf : ∀ a, P a → Gives S (f a) R) : Gives S (p >>= f) R := by
  intro c b c₂ hc hb
  rw [result_bind] at hb
  split at hb
  · next a c₁ ha =>
    obtain ⟨hP, hc₁⟩ := h c a c₁ hc ha
    exact hf a hP c₁ b c₂ hc₁ hb
  · cases hb

private theorem map {k : α → β} (h : Gives S p P) (hk : ∀ a, P a → R (k a)) : Gives S (k <$> p) R := by
  rw [map_eq_pure_bind]
  exact h.bind fun a ha => .pure (hk a ha)

/-- A parser that looks at the cursor first. -/
private theorem look {F : Cursor → Parse β} (h : ∀ c, Gives S (F c) R) : Gives S (get >>= F) R := by
  intro c b c' hc hb
  rw [result_bind_ok (result_get c)] at hb
  exact h c c b c' hc hb

/-- A change of the cursor around its tokens. -/
private theorem modify {F : Cursor → Cursor} (hF : ∀ c, (F c).rest = c.rest) : Gives S (modify F) Any := by
  rintro c _ _ hc ⟨⟩
  exact ⟨trivial, (hF c).symm ▸ hc⟩

end Gives

private theorem gives_current : Gives S current (Token.Sorted S) := by
  rintro c _ _ hc ⟨⟩
  exact ⟨c.sorted_current hc, hc⟩

private theorem gives_advance : Gives S advance Any := by
  rintro c _ _ hc ⟨⟩
  exact ⟨trivial, c.sorted_advance hc⟩

private theorem gives_check (kind : Kind) : Gives S (check kind) Any := by
  rintro c _ _ hc ⟨⟩
  exact ⟨trivial, hc⟩

private theorem gives_atEnd : Gives S atEnd Any := by
  rintro c _ _ hc ⟨⟩
  exact ⟨trivial, hc⟩

private theorem gives_hadError : Gives S hadError Any := by
  rintro c _ _ hc ⟨⟩
  exact ⟨trivial, hc⟩

private theorem gives_turns : Gives S turns Any := by
  rintro c _ _ hc ⟨⟩
  exact ⟨trivial, hc⟩

private theorem gives_cutOff {P : α → Prop} {a : α} (ha : P a) : Gives S (cutOff a) P := by
  rintro c _ _ hc ⟨⟩
  exact ⟨ha, hc⟩

private theorem gives_fail (fault : SyntaxFault) : Gives S (fail fault) Any :=
  .modify fun c => c.fail_rest fault

private theorem gives_accept? (ok : Kind → Bool) :
    Gives S (accept? ok) (IfGiven fun t => t.Sorted S ∧ ok t.kind = true) := by
  intro c o c' hc ho
  rw [result_accept?] at ho
  split at ho
  · next hok =>
    cases ho
    exact ⟨⟨c.sorted_current hc, hok⟩, c.sorted_advance hc⟩
  · cases ho
    exact ⟨trivial, hc⟩

private theorem gives_accept (kind : Kind) : Gives S (accept kind) Any :=
  .bind (gives_accept? _) fun _ _ => .pure trivial

/-- The token that is looked at first is the one that is accepted. -/
private theorem gives_currentAccept {kind : Kind} {k : Token → Bool → Parse α} {P : α → Prop}
    (h : ∀ t b, t.Sorted S → (b = true → t.kind = kind) → Gives S (k t b) P) :
    Gives S (current >>= fun t => accept kind >>= k t) P := by
  intro c a c' hc ha
  rw [result_bind_ok (result_current c), result_bind, result_accept] at ha
  by_cases hkind : c.current.is kind = true
  · rw [if_pos hkind] at ha
    exact h _ true (c.sorted_current hc) (fun _ => of_decide_eq_true hkind) _ a c' (c.sorted_advance hc) ha
  · rw [if_neg hkind] at ha
    exact h _ false (c.sorted_current hc) nofun _ a c' hc ha

/-- A name that has to be there. -/
private theorem gives_expectName {kinds : List Kind} (hk : ∀ k ∈ kinds, k = .ident ∨ k = .classIdent)
    (fault : Kind → SyntaxFault) : Gives S (expectOr kinds fault) fun t => IsName t.text := by
  unfold expectOr
  refine .bind (gives_accept? _) fun o ho => ?_
  cases o with
  | some t => exact .pure (ho.1.isName (List.contains_iff_mem.1 ho.2) hk)
  | none => exact .bind gives_current fun t _ => .bind (gives_fail _) fun _ _ => .pure isName_error

private theorem gives_expectIdent : Gives S (expect .ident) fun t => IsName t.text :=
  gives_expectName (List.forall_mem_singleton.2 (.inl rfl)) _

private theorem gives_expectClass : Gives S (expect .classIdent) fun t => IsName t.text :=
  gives_expectName (List.forall_mem_singleton.2 (.inr rfl)) _

private theorem gives_expect (kind : Kind) : Gives S (expect kind) Any := by
  unfold expect expectOr
  refine .bind (gives_accept? _) fun o _ => ?_
  cases o with
  | some t => exact .pure trivial
  | none => exact .bind gives_current fun t _ => .bind (gives_fail _) fun _ _ => .pure trivial

section Loops

variable {P : α → Prop}

private theorem gives_many {item : Parse (Option α)} (h : Gives S item (IfGiven P)) (turns : List Token) :
    Gives S (many item turns) fun l => ∀ a ∈ l, P a := by
  induction turns with
  | nil => exact gives_cutOff (List.forall_mem_nil _)
  | cons t turns ih =>
    unfold many
    refine .bind h fun o ho => ?_
    cases o with
    | none => exact .pure (List.forall_mem_nil _)
    | some a => exact .bind ih fun l hl => .pure (List.forall_mem_cons.2 ⟨ho, hl⟩)

private theorem gives_repeated {item : Parse (Option α)} (h : Gives S item (IfGiven P)) :
    Gives S (repeated item) fun l => ∀ a ∈ l, P a :=
  .bind gives_turns fun turns _ => gives_many h turns

private theorem gives_commaSeparated {item : Parse α} (h : Gives S item P) :
    Gives S (commaSeparated item) fun l => ∀ a ∈ l, P a := by
  unfold commaSeparated
  refine .bind h fun a ha => .bind (gives_repeated ?_) fun l hl => .pure (List.forall_mem_cons.2 ⟨ha, hl⟩)
  refine .bind (gives_accept _) fun b _ => ?_
  split
  · exact .bind h fun a ha => .pure ha
  · exact .pure trivial

private theorem gives_iterate {step : α → Parse (Option α)} (h : ∀ a, P a → Gives S (step a) (IfGiven P))
    (turns : List Token) :
    ∀ a, P a → Gives S (iterate step turns a) P := by
  induction turns with
  | nil => exact fun a ha => gives_cutOff ha
  | cons t turns ih =>
    intro a ha
    unfold iterate
    refine .bind (h a ha) fun o ho => ?_
    cases o with
    | none => exact .pure ha
    | some b => exact ih b ho

private theorem gives_extend {step : α → Parse (Option α)} {a : α} (ha : P a)
    (h : ∀ a, P a → Gives S (step a) (IfGiven P)) :
    Gives S (extend a step) P :=
  .bind gives_turns fun turns _ => gives_iterate h turns a ha

end Loops

end Parse

open Parse

/-- All parsers of the grammar give what is well named. -/
structure Grammar.Gives (S : Token → Prop) (g : Grammar) : Prop where
  type? : Parse.Gives S g.type? (IfGiven TypeExpr.WellNamed)
  expression : Parse.Gives S g.expression (Expr.ReadFrom S)
  assignment : Parse.Gives S g.assignment (Expr.ReadFrom S)
  factor : Parse.Gives S g.factor (Expr.ReadFrom S)
  unary : Parse.Gives S g.unary (Expr.ReadFrom S)
  start : Parse.Gives S g.start (Stmt.ReadFrom S)
  statement : Parse.Gives S g.statement (Stmt.ReadFrom S)

namespace Parse

variable {g : Grammar}

/-! ### Types -/

/-- The names of all block types that were opened are no reserved words. -/
def BlockHeads.WellNamed (b : BlockHeads) : Prop :=
  ∀ h ∈ b.heads, ∀ name ∈ h.name, IsName name.text

private theorem BlockHeads.WellNamed.opened {b : BlockHeads} (h : b.WellNamed) : b.opened.WellNamed :=
  List.forall_mem_append.2 ⟨h, List.forall_mem_singleton.2 nofun⟩

private theorem BlockHeads.WellNamed.closed {b : BlockHeads} (h : b.WellNamed) {head : BlockHead}
    (hhead : ∀ name ∈ head.name, IsName name.text) : (b.closed head).WellNamed := by
  unfold BlockHeads.closed
  split
  · exact h
  · intro k hk
    rcases List.mem_or_eq_of_mem_set hk with hk | rfl
    · exact h k hk
    · exact hhead

/-- The name inside a type is that of the block that was opened last. -/
private theorem BlockHeads.WellNamed.type {b : BlockHeads} (h : b.WellNamed) {base : TypeExpr}
    (hbase : base.WellNamed) :
    (b.type base).WellNamed := by
  unfold BlockHeads.type
  obtain ⟨heads, pending⟩ := b
  unfold BlockHeads.WellNamed at h
  dsimp only at h ⊢
  revert base
  induction heads with
  | nil => exact fun hbase => hbase
  | cons head heads ih =>
    intro base hbase
    obtain ⟨hhead, hheads⟩ := List.forall_mem_cons.1 h
    exact ih hheads hhead

private theorem gives_opensBlockType : Gives S opensBlockType Any :=
  .look fun _ => .pure trivial

private theorem gives_typeList (hg : g.Gives S) : Gives S (typeList g) Any :=
  .bind (gives_commaSeparated hg.type?) fun _ _ => .pure trivial

private theorem gives_innermostBlock {blocks : BlockHeads} (hb : blocks.WellNamed) :
    Gives S (innermostBlock blocks) BlockHeads.WellNamed := by
  refine .bind gives_opensBlockType fun b _ => ?_
  split
  · exact .bind gives_advance fun _ _ => .bind gives_advance fun _ _ => .pure hb.opened
  · exact .pure hb

private theorem gives_closedBlock (hg : g.Gives S) {blocks : BlockHeads} (hb : blocks.WellNamed) :
    Gives S (closedBlock g blocks) (IfGiven BlockHeads.WellNamed) := by
  refine .bind (gives_accept? _) fun name hname => .bind (gives_accept _) fun b _ => ?_
  split
  · refine .bind (gives_expect _) fun _ _ => .bind (gives_typeList hg) fun params _ => ?_
    refine .bind (gives_expect _) fun _ _ => .pure (hb.closed ?_)
    cases name with
    | none => nofun
    | some t =>
      rintro _ ⟨⟩
      exact hname.1.name (.inl (of_decide_eq_true hname.2))
  · exact .bind (gives_fail _) fun _ _ => .pure hb

private theorem gives_blockHead? (hg : g.Gives S) {blocks : BlockHeads} (hb : blocks.WellNamed) :
    Gives S (blockHead? g blocks) (IfGiven BlockHeads.WellNamed) := by
  rw [blockHead?_eq]
  refine .bind gives_hadError fun b _ => ?_
  split
  · exact .pure trivial
  · exact .bind (gives_innermostBlock hb) fun blocks hb => gives_closedBlock hg hb

private theorem gives_blockType (hg : g.Gives S) {base : TypeExpr} (hbase : base.WellNamed) :
    Gives S (blockType g base) TypeExpr.WellNamed := by
  have hstart : BlockHeads.WellNamed ⟨[], []⟩ := List.forall_mem_nil _
  refine .bind (gives_expect _) fun _ _ => .bind (gives_expect _) fun _ _ => ?_
  exact .bind (gives_extend hstart.opened fun b hb => gives_blockHead? hg hb) fun b hb => .pure (hb.type hbase)

private theorem gives_type? (hg : g.Gives S) : Gives S (Parse.type? g) (IfGiven TypeExpr.WellNamed) := by
  unfold Parse.type? typeName?
  simp only [bind_assoc]
  refine .look fun c => .bind (gives_accept? _) fun o _ => ?_
  cases o with
  | none => exact .pure trivial
  | some name =>
    have hbase : (TypeExpr.named name).WellNamed := nofun
    refine .bind (gives_accept _) fun _ _ => .bind gives_opensBlockType fun b _ => ?_
    split
    · exact .bind (gives_blockType hg hbase) fun t ht => .pure ht
    · exact .pure hbase

/-! ### Expressions -/

private theorem gives_listBefore (hg : g.Gives S) (closing : Symbol) :
    Gives S (listBefore g closing) fun l => ∀ e ∈ l, e.ReadFrom S := by
  refine .bind (gives_check _) fun b _ => ?_
  split
  · exact .pure (List.forall_mem_nil _)
  · exact gives_commaSeparated hg.expression

private theorem gives_arguments (hg : g.Gives S) {closing : Symbol} :
    Gives S (arguments g closing) fun l => ∀ e ∈ l, e.ReadFrom S := by
  rw [arguments_eq]
  exact .bind (gives_listBefore hg closing) fun l hl => .bind (gives_expect _) fun _ _ => .pure hl

private theorem gives_primary (hg : g.Gives S) : Gives S (primary g) (Expr.ReadFrom S) := by
  have hliteral : ∀ value, (Expr.literal value).ReadFrom S :=
    fun _ => List.forall_mem_singleton.2 ⟨⟨nofun, trivial⟩, nofun⟩
  unfold primary
  refine .bind gives_current fun t ht => ?_
  split
  case h_1 =>
    refine .bind gives_advance fun _ _ => ?_
    split
    · exact .pure (hliteral _)
    · exact .throw _
  case h_3 =>
    refine .bind gives_advance fun _ _ => .bind hg.expression fun e he => ?_
    exact .bind (gives_expect _) fun _ _ => .pure (List.forall_mem_cons.2 ⟨⟨⟨nofun, trivial⟩, nofun⟩, he⟩)
  case h_4 =>
    refine .bind gives_advance fun _ _ => .bind (gives_arguments hg) fun l hl => .pure ?_
    exact List.forall_mem_cons.2 ⟨⟨⟨nofun, trivial⟩, nofun⟩, Expr.forall_nodesList hl⟩
  case h_8 hkind =>
    exact .bind gives_advance fun _ _ => .pure (List.forall_mem_singleton.2 ⟨⟨nofun, ht.name (.inr hkind)⟩, nofun⟩)
  case h_9 hkind =>
    exact .bind gives_advance fun _ _ => .pure (List.forall_mem_singleton.2 ⟨⟨nofun, ht.name (.inl hkind)⟩, nofun⟩)
  case h_10 hkind =>
    exact .bind gives_advance fun _ _ => .pure (List.forall_mem_singleton.2 ⟨⟨nofun, ht.word _ hkind⟩, nofun⟩)
  case h_11 hkind =>
    exact .bind gives_advance fun _ _ => .pure (List.forall_mem_singleton.2 ⟨⟨nofun, ht.word _ hkind⟩, nofun⟩)
  case h_12 => exact .bind (gives_fail _) fun _ _ => .pure (hliteral _)
  -- the other tokens are literals
  all_goals exact .bind gives_advance fun _ _ => .pure (hliteral _)

private theorem gives_messageArgument? (hg : g.Gives S) :
    Gives S (messageArgument? g) (IfGiven (Expr.ReadFrom S)) := by
  unfold messageArgument?
  refine .bind (gives_check _) fun _ _ => .bind gives_atEnd fun _ _ => .bind gives_hadError fun _ _ => ?_
  split
  · exact .pure trivial
  · refine .bind (gives_expect _) fun _ _ => .bind (gives_expect _) fun _ _ => ?_
    exact .bind hg.expression fun e he => .pure he

private theorem gives_messageArguments (hg : g.Gives S) :
    Gives S (messageArguments g) fun l => ∀ e ∈ l, e.ReadFrom S := by
  refine .bind (gives_accept _) fun b _ => ?_
  split
  · refine .bind hg.expression fun first hf => .bind (gives_repeated (gives_messageArgument? hg)) fun l hl => ?_
    exact .pure (List.forall_mem_cons.2 ⟨hf, hl⟩)
  · exact .pure (List.forall_mem_nil _)

private theorem gives_messageSend (hg : g.Gives S) : Gives S (messageSend g) (Expr.ReadFrom S) := by
  rw [messageSend_eq]
  refine .bind (gives_accept _) fun b _ => ?_
  split
  · refine .bind hg.factor fun receiver hr => .bind gives_expectIdent fun selector hs => ?_
    refine .bind (gives_messageArguments hg) fun args h => .bind (gives_expect _) fun _ _ => .pure ?_
    have hget : (Expr.get receiver selector.toName).ReadFrom S := List.forall_mem_cons.2 ⟨⟨⟨nofun, hs⟩, nofun⟩, hr⟩
    exact List.forall_mem_cons.2 ⟨⟨⟨nofun, trivial⟩, nofun⟩, List.forall_mem_append.2 ⟨hget, Expr.forall_nodesList h⟩⟩
  · exact gives_primary hg

private theorem gives_callSuffix? (hg : g.Gives S) {e : Expr} (he : e.ReadFrom S) :
    Gives S (callSuffix? g e) (IfGiven (Expr.ReadFrom S)) := by
  unfold callSuffix?
  refine .bind (gives_accept _) fun b _ => ?_
  split
  · refine .bind (gives_arguments hg) fun l hl => .pure ?_
    exact List.forall_mem_cons.2 ⟨⟨⟨nofun, trivial⟩, nofun⟩, List.forall_mem_append.2 ⟨he, Expr.forall_nodesList hl⟩⟩
  · refine .bind (gives_accept _) fun b _ => ?_
    split
    · exact .bind gives_expectIdent fun name hname => .pure (List.forall_mem_cons.2 ⟨⟨⟨nofun, hname⟩, nofun⟩, he⟩)
    · exact .pure trivial

private theorem gives_call (hg : g.Gives S) : Gives S (call g) (Expr.ReadFrom S) :=
  .bind (gives_messageSend hg) fun _ he => gives_extend he fun _ he => gives_callSuffix? hg he

private theorem gives_param? (hg : g.Gives S) : Gives S (param? g) (IfGiven Param.WellNamed) := by
  unfold param?
  refine .bind hg.type? fun o ho => ?_
  cases o with
  | none => exact .pure trivial
  | some type =>
    dsimp only
    cases hname : type.blockName? with
    | some name => exact .pure (ho name hname)
    | none =>
      refine .bind (gives_accept? _) fun o hname => ?_
      split
      · exact .pure (hname.1.name (.inl (of_decide_eq_true hname.2)))
      · exact .pure trivial
      · exact .bind gives_expectIdent fun _ hname => .pure hname

private theorem gives_paramList (hg : g.Gives S) : Gives S (paramList g) fun l => ∀ p ∈ l, p.WellNamed := by
  unfold paramList
  refine .bind (gives_check _) fun b _ => ?_
  split
  · exact .pure (List.forall_mem_nil _)
  · refine .bind (gives_commaSeparated (gives_param? hg)) fun l hl => .pure fun p hp => ?_
    obtain ⟨o, ho, rfl⟩ := List.mem_filterMap.1 hp
    exact hl _ ho

private theorem gives_blockStatement? (hg : g.Gives S) : Gives S (blockStatement? g) (IfGiven (Stmt.ReadFrom S)) := by
  unfold blockStatement?
  refine .bind (gives_check _) fun _ _ => .bind gives_atEnd fun _ _ => .bind gives_hadError fun _ _ => ?_
  split
  · exact .pure trivial
  · exact .bind hg.start fun s hs => .pure hs

private theorem gives_blockStatements (hg : g.Gives S) : Gives S (blockStatements g) fun l => ∀ s ∈ l, s.ReadFrom S :=
  .bind (gives_repeated (gives_blockStatement? hg)) fun _ hl => .bind (gives_expect _) fun _ _ => .pure hl

/-- The names of parameters that are well named. -/
private theorem isName_paramNames {params : List Param} (h : ∀ p ∈ params, p.WellNamed) :
    ∀ x ∈ paramNames params, IsName x := by
  intro x hx
  obtain ⟨p, hp, rfl⟩ := List.mem_map.1 hx
  exact h p hp

private theorem gives_blockParams (hg : g.Gives S) : Gives S (blockParams g) fun l => ∀ p ∈ l, p.WellNamed := by
  refine .bind (gives_accept _) fun b _ => ?_
  split
  · exact .bind (gives_paramList hg) fun params hp => .bind (gives_expect _) fun _ _ => .pure hp
  · exact .pure (List.forall_mem_nil _)

private theorem gives_blockLiteral (hg : g.Gives S) : Gives S (blockLiteral g) (Expr.ReadFrom S) := by
  rw [blockLiteral_eq]
  refine .bind (gives_accept _) fun b _ => ?_
  split
  · refine .bind hg.type? fun returns _ => .bind (gives_blockParams hg) fun params hp => ?_
    refine .bind (gives_expect _) fun _ _ => .bind (gives_blockStatements hg) fun b hb => .pure ?_
    have hhere : Node.ReadFrom S (.expr (.block returns params b)) :=
      ⟨⟨List.forall_mem_append.2 ⟨isName_paramNames hp, List.forall_mem_nil _⟩, trivial⟩, nofun⟩
    exact List.forall_mem_cons.2 ⟨hhere, Stmt.forall_nodesList hb⟩
  · exact gives_call hg

private theorem gives_unary (hg : g.Gives S) : Gives S (unary g) (Expr.ReadFrom S) := by
  unfold unary
  refine .bind gives_current fun t ht => ?_
  split
  · next op hop =>
    refine .bind gives_advance fun _ _ => .bind hg.unary fun e he => .pure ?_
    exact List.forall_mem_cons.2 ⟨⟨⟨nofun, trivial⟩, ht.marked (unaryOp?_eq_some hop) rfl⟩, he⟩
  · exact gives_blockLiteral hg

private theorem gives_index (hg : g.Gives S) : Gives S (index g) (Expr.ReadFrom S) := by
  refine .bind (gives_unary hg) fun _ he => gives_extend he fun e he => ?_
  unfold indexSuffix?
  refine .bind (gives_accept _) fun b _ => ?_
  split
  · refine .bind hg.expression fun place hp => .bind (gives_expect _) fun _ _ => .pure ?_
    exact List.forall_mem_cons.2 ⟨⟨⟨nofun, trivial⟩, nofun⟩, List.forall_mem_append.2 ⟨he, hp⟩⟩
  · exact .pure trivial

private theorem gives_binaryLevel {operand : Parse Expr} {op? : Kind → Option BinaryOp}
    (hop : ∀ kind op, op? kind = some op → kind = .symbol op.symbol) (h : Gives S operand (Expr.ReadFrom S)) :
    Gives S (binaryLevel operand op?) (Expr.ReadFrom S) := by
  refine .bind h fun e he => gives_extend he fun e he => ?_
  unfold binarySuffix?
  refine .bind gives_current fun t ht => ?_
  split
  · next op hkind =>
    refine .bind gives_advance fun _ _ => .bind h fun r hr => .pure ?_
    have hhere : Node.ReadFrom S (.expr (.binary e op t.pos r)) := ⟨⟨nofun, trivial⟩, ht.marked (hop _ _ hkind) rfl⟩
    exact List.forall_mem_cons.2 ⟨hhere, List.forall_mem_append.2 ⟨he, hr⟩⟩
  · exact .pure trivial

private theorem gives_logicalLevel {operand : Parse Expr} {op : LogicOp} (h : Gives S operand (Expr.ReadFrom S)) :
    Gives S (logicalLevel operand op) (Expr.ReadFrom S) := by
  refine .bind h fun e he => gives_extend he fun e he => ?_
  unfold logicalSuffix?
  refine .bind (gives_accept _) fun b _ => ?_
  split
  · refine .bind h fun r hr => .pure ?_
    exact List.forall_mem_cons.2 ⟨⟨⟨nofun, trivial⟩, nofun⟩, List.forall_mem_append.2 ⟨he, hr⟩⟩
  · exact .pure trivial

private theorem gives_factor (hg : g.Gives S) : Gives S (factor g) (Expr.ReadFrom S) := by
  refine gives_binaryLevel (fun kind op h => ?_) (gives_index hg)
  unfold productOp? at h
  split at h <;> cases h <;> rfl

private theorem gives_disjunction (hg : g.Gives S) : Gives S (disjunction g) (Expr.ReadFrom S) := by
  have hterm : Gives S (term g) (Expr.ReadFrom S) := by
    refine gives_binaryLevel (fun kind op h => ?_) (gives_factor hg)
    unfold sumOp? at h
    split at h <;> cases h <;> rfl
  have hcomparison : Gives S (comparison g) (Expr.ReadFrom S) := by
    refine gives_binaryLevel (fun kind op h => ?_) hterm
    unfold comparisonOp? at h
    split at h <;> cases h <;> rfl
  have hequality : Gives S (equality g) (Expr.ReadFrom S) := by
    refine gives_binaryLevel (fun kind op h => ?_) hcomparison
    unfold equalityOp? at h
    split at h <;> cases h <;> rfl
  have hconjunction : Gives S (conjunction g) (Expr.ReadFrom S) := gives_logicalLevel hequality
  exact gives_logicalLevel hconjunction

/-- The name of a variable or of a member that is assigned to is one. -/
private theorem gives_assignTo {target value : Expr} {op : AssignOp} {t : Token} {fault : SyntaxFault}
    (hop : t.Sorted S)
    (hkind : t.kind = .symbol op.symbol) (ht : target.ReadFrom S) (hv : value.ReadFrom S) :
    Gives S (assignTo target op t.pos value fault) (Expr.ReadFrom S) := by
  unfold assignTo
  split
  · have href := (List.forall_mem_cons.1 ht).1
    refine .pure (List.forall_mem_cons.2 ⟨⟨⟨List.forall_mem_singleton.2 href.1.2, trivial⟩, ?_⟩, hv⟩)
    exact hop.marked hkind rfl
  · obtain ⟨hget, hobject⟩ := List.forall_mem_cons.1 ht
    refine .pure (List.forall_mem_cons.2 ⟨⟨⟨List.forall_mem_singleton.2 hget.1.2, trivial⟩, ?_⟩, ?_⟩)
    · exact hop.marked hkind rfl
    · exact List.forall_mem_append.2 ⟨hobject, hv⟩
  · have hparts := (List.forall_mem_cons.1 ht).2
    refine .pure (List.forall_mem_cons.2 ⟨⟨⟨nofun, trivial⟩, ?_⟩, List.forall_mem_append.2 ⟨hparts, hv⟩⟩)
    exact hop.marked hkind rfl
  · exact .bind (gives_fail _) fun _ _ => .pure (List.forall_mem_singleton.2 ⟨⟨nofun, trivial⟩, nofun⟩)

private theorem gives_increment (hg : g.Gives S) : Gives S (increment g) (Expr.ReadFrom S) := by
  unfold increment
  have hone : (Expr.literal (.number 1)).ReadFrom S := List.forall_mem_singleton.2 ⟨⟨nofun, trivial⟩, nofun⟩
  refine .bind (gives_disjunction hg) fun target ht => gives_currentAccept fun t b hsorted hkind => ?_
  split
  · next hb => exact gives_assignTo hsorted (hkind hb) ht hone
  · exact .pure ht

private theorem gives_assignment (hg : g.Gives S) : Gives S (assignment g) (Expr.ReadFrom S) := by
  unfold assignment
  refine .bind (gives_increment hg) fun target ht => .bind gives_current fun t hsorted => ?_
  split
  · next op hop =>
    refine .bind gives_advance fun _ _ => .bind hg.assignment fun value hv => ?_
    exact gives_assignTo hsorted (assignOp?_eq_some hop).1 ht hv
  · exact .pure ht

private theorem gives_expression (hg : g.Gives S) : Gives S (expression g) (Expr.ReadFrom S) := by
  unfold expression
  refine .bind (gives_assignment hg) fun condition hc => .bind (gives_accept _) fun b _ => ?_
  split
  · refine .bind hg.expression fun yes hy => .bind (gives_expect _) fun _ _ => .bind hg.expression fun no hn => ?_
    refine .pure (List.forall_mem_cons.2 ⟨⟨⟨nofun, trivial⟩, nofun⟩, ?_⟩)
    exact List.forall_mem_append.2 ⟨List.forall_mem_append.2 ⟨hc, hy⟩, hn⟩
  · exact .pure hc

/-! ### Statements -/

private theorem gives_initialValue (hg : g.Gives S) : Gives S (initialValue g) fun o => ∀ e ∈ o, e.ReadFrom S := by
  refine .bind (gives_accept _) fun b _ => ?_
  split
  · exact .map hg.expression fun e he => by simpa using he
  · exact .pure nofun

private theorem gives_varDeclaration (hg : g.Gives S) {name : Name} (hname : IsName name.text) (type : TypeExpr) :
    Gives S (varDeclaration g name type) (VarDecl.ReadFrom S) := by
  rw [varDeclaration_eq]
  refine .bind (gives_initialValue hg) fun init h => .bind (gives_expect _) fun _ _ => ?_
  exact .pure ⟨hname, Expr.forall_nodesOption h⟩

private theorem gives_functionDeclaration (hg : g.Gives S) {name : Name} (hname : IsName name.text) :
    Gives S (functionDeclaration g name) (FunctionDecl.ReadFrom S) := by
  unfold functionDeclaration
  refine .bind (gives_paramList hg) fun params hp => .bind (gives_expect _) fun _ _ =>
    .bind (gives_accept _) fun b _ => ?_
  split
  · exact .pure ⟨hname, hp, List.forall_mem_nil _⟩
  · refine .bind (gives_expect _) fun _ _ => .bind (gives_blockStatements hg) fun body hb => .pure ?_
    exact ⟨hname, hp, Stmt.forall_nodesList hb⟩

private theorem gives_declaredName {type : TypeExpr} (ht : type.WellNamed) :
    Gives S (declaredName type) fun n => IsName n.text := by
  unfold declaredName
  split
  · exact .pure (ht _ rfl)
  · exact .bind (gives_expectName (List.forall_mem_singleton.2 (.inl rfl)) _) fun _ h => .pure h
  · exact .bind gives_expectIdent fun _ h => .pure h

private theorem gives_declaration (hg : g.Gives S) {type : TypeExpr} (ht : type.WellNamed) :
    Gives S (declaration g type) (Stmt.ReadFrom S) := by
  unfold declaration
  refine .bind (gives_declaredName ht) fun name hname => .bind (gives_accept _) fun b _ => ?_
  split
  · refine .bind (gives_functionDeclaration hg hname) fun d hd =>
      .pure (List.forall_mem_cons.2 ⟨⟨⟨?_, trivial⟩, nofun⟩, hd.2.2⟩)
    exact List.forall_mem_append.2 ⟨List.forall_mem_cons.2 ⟨hd.1, isName_paramNames hd.2.1⟩, List.forall_mem_nil _⟩
  · refine .bind (gives_varDeclaration hg hname type) fun d hd =>
      .pure (List.forall_mem_cons.2 ⟨⟨⟨?_, trivial⟩, nofun⟩, hd.2⟩)
    exact List.forall_mem_singleton.2 hd.1

private theorem gives_expressionStatement (hg : g.Gives S) : Gives S (expressionStatement g) (Stmt.ReadFrom S) :=
  .bind (gives_expression hg) fun _ he => .bind (gives_accept _) fun _ _ =>
    .pure (List.forall_mem_cons.2 ⟨⟨⟨nofun, trivial⟩, nofun⟩, he⟩)

private theorem gives_block (hg : g.Gives S) : Gives S (block g) (Stmt.ReadFrom S) :=
  .bind (gives_blockStatements hg) fun _ hb => .bind (gives_accept _) fun _ _ =>
    .pure (List.forall_mem_cons.2 ⟨⟨⟨nofun, trivial⟩, nofun⟩, Stmt.forall_nodesList hb⟩)

private theorem gives_body (hg : g.Gives S) : Gives S (body g) (Stmt.ReadFrom S) := by
  refine .bind (gives_accept _) fun b _ => ?_
  split
  · exact gives_block hg
  · exact hg.statement

private theorem gives_condition (hg : g.Gives S) : Gives S (condition g) (Expr.ReadFrom S) :=
  .bind (gives_expect _) fun _ _ => .bind hg.expression fun _ he => .bind (gives_expect _) fun _ _ => .pure he

private theorem gives_elseBranch (hg : g.Gives S) : Gives S (elseBranch g) fun o => ∀ s ∈ o, s.ReadFrom S := by
  refine .bind (gives_accept _) fun b _ => ?_
  split
  · exact .map (gives_body hg) fun no hn => by simpa using hn
  · exact .pure nofun

private theorem gives_ifStatement (hg : g.Gives S) : Gives S (ifStatement g) (Stmt.ReadFrom S) := by
  rw [ifStatement_eq]
  refine .bind (gives_condition hg) fun e he => .bind (gives_body hg) fun yes hy => ?_
  refine .bind (gives_elseBranch hg) fun no h => .pure (List.forall_mem_cons.2 ⟨⟨⟨nofun, trivial⟩, nofun⟩, ?_⟩)
  exact List.forall_mem_append.2 ⟨List.forall_mem_append.2 ⟨he, hy⟩, Stmt.forall_nodesOption h⟩

private theorem gives_whileStatement (hg : g.Gives S) : Gives S (whileStatement g) (Stmt.ReadFrom S) :=
  .bind (gives_condition hg) fun _ he => .bind (gives_body hg) fun _ hb =>
    .pure (List.forall_mem_cons.2 ⟨⟨⟨nofun, trivial⟩, nofun⟩, List.forall_mem_append.2 ⟨he, hb⟩⟩)

private theorem gives_forInit (hg : g.Gives S) : Gives S (forInit g) fun o => ∀ s ∈ o, s.ReadFrom S := by
  unfold forInit
  refine .bind (gives_accept _) fun b _ => ?_
  split
  · exact .pure nofun
  · refine .bind hg.type? fun o ho => ?_
    cases o with
    | some type => exact .bind (gives_declaration hg ho) fun s hs => .pure (by simpa using hs)
    | none => exact .bind (gives_expressionStatement hg) fun s hs => .pure (by simpa using hs)

private theorem gives_forCondition (hg : g.Gives S) : Gives S (forCondition g) fun o => ∀ e ∈ o, e.ReadFrom S := by
  unfold forCondition
  refine .bind (gives_accept _) fun b _ => ?_
  split
  · exact .pure nofun
  · exact .bind hg.expression fun e he => .bind (gives_expect _) fun _ _ => .pure (by simpa using he)

private theorem gives_expressionBefore (hg : g.Gives S) (closing : Symbol) :
    Gives S (expressionBefore g closing) fun o => ∀ e ∈ o, e.ReadFrom S := by
  refine .bind (gives_check _) fun b _ => ?_
  split
  · exact .pure nofun
  · exact .map hg.expression fun e he => by simpa using he

private theorem gives_forStatement (hg : g.Gives S) : Gives S (forStatement g) (Stmt.ReadFrom S) := by
  rw [forStatement_eq]
  refine .bind (gives_expect _) fun _ _ => .bind (gives_forInit hg) fun init hi => ?_
  refine .bind (gives_forCondition hg) fun c hc => .bind (gives_expressionBefore hg .rpar) fun step hs => ?_
  refine .bind (gives_expect _) fun _ _ => .bind (gives_body hg) fun b hb => .pure ?_
  refine List.forall_mem_cons.2 ⟨⟨⟨nofun, trivial⟩, nofun⟩, List.forall_mem_append.2 ⟨?_, hb⟩⟩
  exact List.forall_mem_append.2 ⟨List.forall_mem_append.2 ⟨Stmt.forall_nodesOption hi, Expr.forall_nodesOption hc⟩,
    Expr.forall_nodesOption hs⟩

private theorem gives_returnStatement (hg : g.Gives S) : Gives S (returnStatement g) (Stmt.ReadFrom S) := by
  rw [returnStatement_eq]
  refine .bind (gives_expressionBefore hg .semi) fun value h => .bind (gives_expect _) fun _ _ => ?_
  exact .pure (List.forall_mem_cons.2 ⟨⟨⟨nofun, trivial⟩, nofun⟩, Expr.forall_nodesOption h⟩)

private theorem gives_printStatement (hg : g.Gives S) : Gives S (printStatement g) (Stmt.ReadFrom S) :=
  .bind hg.expression fun _ he => .bind (gives_expect _) fun _ _ =>
    .pure (List.forall_mem_cons.2 ⟨⟨⟨nofun, trivial⟩, nofun⟩, he⟩)

private theorem readFrom_typeDef (name : Name) (type : TypeExpr) : (Stmt.typeDef name type).ReadFrom S :=
  List.forall_mem_singleton.2 ⟨⟨nofun, trivial⟩, nofun⟩

private theorem gives_typedefRest (type : TypeExpr) : Gives S (typedefRest type) (Stmt.ReadFrom S) := by
  have hname : Gives S (typedefName type) Any := by
    unfold typedefName
    split
    · exact .pure trivial
    · exact .bind (gives_expect _) fun _ _ => .pure trivial
  refine .bind hname fun name _ => .bind (gives_expect _) fun _ _ => .bind (.modify fun _ => rfl) fun _ _ => ?_
  exact .pure (readFrom_typeDef name type)

private theorem gives_typedefStatement (hg : g.Gives S) : Gives S (typedefStatement g) (Stmt.ReadFrom S) := by
  rw [typedefStatement_eq]
  refine .bind hg.type? fun o _ => ?_
  cases o with
  | none => exact .bind (gives_fail _) fun _ _ => .bind (gives_expect _) fun _ _ => .pure (readFrom_typeDef _ _)
  | some type => exact gives_typedefRest type

private theorem gives_neededType (hg : g.Gives S) (fault : SyntaxFault) : Gives S (neededType g fault) Any := by
  refine .bind hg.type? fun o _ => ?_
  cases o with
  | some type => exact .pure trivial
  | none => exact .bind (gives_fail _) fun _ _ => .pure trivial

private theorem gives_selectorPart (hg : g.Gives S) : Gives S (selectorPart g) Param.WellNamed := by
  rw [selectorPart_eq]
  refine .bind (gives_expect _) fun _ _ => .bind (gives_neededType hg _) fun type _ => ?_
  exact .bind (gives_expect _) fun _ _ => .bind gives_expectIdent fun _ h => .pure h

private theorem gives_selectorSuffix? (hg : g.Gives S) : Gives S (selectorSuffix? g) (IfGiven Param.WellNamed) := by
  unfold selectorSuffix?
  refine .bind (gives_accept _) fun b _ => ?_
  split
  · exact .bind (gives_expect _) fun _ _ => .bind (gives_selectorPart hg) fun p hp => .pure hp
  · exact .pure trivial

private theorem gives_methodParams (hg : g.Gives S) : Gives S (methodParams g) fun l => ∀ p ∈ l, p.WellNamed := by
  refine .bind (gives_accept _) fun b _ => ?_
  split
  · refine .bind (gives_selectorPart hg) fun first hf => .bind (gives_repeated (gives_selectorSuffix? hg))
      fun l hl => ?_
    exact .pure (List.forall_mem_cons.2 ⟨hf, hl⟩)
  · exact .pure (List.forall_mem_nil _)

private theorem gives_methodBody (hg : g.Gives S) : Gives S (methodBody g) fun l => ∀ s ∈ l, s.ReadFrom S := by
  refine .bind (gives_accept _) fun b _ => ?_
  split
  · exact gives_blockStatements hg
  · exact .bind (gives_expect _) fun _ _ => .pure (List.forall_mem_nil _)

private theorem gives_method (hg : g.Gives S) (isStatic : Bool) :
    Gives S (method g isStatic) (FunctionDecl.ReadFrom S) := by
  rw [method_eq]
  refine .bind (gives_selectorPart hg) fun head hhead => .bind (gives_methodParams hg) fun params hp => ?_
  exact .bind (gives_methodBody hg) fun body hb => .pure ⟨hhead, hp, Stmt.forall_nodesList hb⟩

private theorem gives_propertyAttributes : Gives S propertyAttributes Any := by
  unfold propertyAttributes
  refine .bind (gives_accept _) fun b _ => ?_
  split
  · refine .bind (gives_commaSeparated (gives_accept? _)) fun _ _ => ?_
    exact .bind (gives_expect _) fun _ _ => .pure trivial
  · exact .pure trivial

private theorem gives_property (hg : g.Gives S) : Gives S (property g) (VarDecl.ReadFrom S) := by
  have hkinds : ∀ k ∈ [Kind.ident, .classIdent], k = .ident ∨ k = .classIdent :=
    List.forall_mem_cons.2 ⟨.inl rfl, List.forall_mem_singleton.2 (.inr rfl)⟩
  rw [property_eq]
  refine .bind gives_propertyAttributes fun _ _ => .bind (gives_neededType hg _) fun type _ => ?_
  refine .bind (gives_accept _) fun _ _ => .bind (gives_expectName hkinds _) fun name hname => ?_
  exact gives_varDeclaration hg hname type

private theorem gives_inSection : Gives S inSection Any :=
  .bind (gives_check _) fun _ _ => .bind gives_atEnd fun _ _ => .bind gives_hadError fun _ _ => .pure trivial

private theorem gives_methodSign? : Gives S methodSign? Any :=
  .bind (gives_accept? _) fun _ _ => .pure trivial

/-- A member of a class is read from the tokens. -/
def MemberReadFrom (S : Token → Prop) (m : FunctionDecl ⊕ VarDecl) : Prop :=
  (∀ d, m = .inl d → d.ReadFrom S) ∧ ∀ d, m = .inr d → d.ReadFrom S

private theorem gives_interfaceMember? (hg : g.Gives S) :
    Gives S (interfaceMember? g) (IfGiven fun o => ∀ m ∈ o, MemberReadFrom S m) := by
  unfold interfaceMember?
  refine .bind gives_inSection fun b _ => ?_
  split
  · refine .bind gives_methodSign? fun o _ => ?_
    cases o with
    | some isStatic =>
      refine .bind (gives_method hg isStatic) fun d hd => .pure ?_
      rintro _ ⟨⟩
      exact ⟨by rintro _ ⟨⟩; exact hd, nofun⟩
    | none =>
      refine .bind (gives_accept _) fun b _ => ?_
      split
      · refine .bind (gives_property hg) fun d hd => .pure ?_
        rintro _ ⟨⟩
        exact ⟨nofun, by rintro _ ⟨⟩; exact hd⟩
      · exact .bind (gives_fail _) fun _ _ => .pure nofun
  · exact .pure trivial

private theorem gives_implementationMember? (hg : g.Gives S) :
    Gives S (implementationMember? g) (IfGiven fun o => ∀ d ∈ o, d.ReadFrom S) := by
  unfold implementationMember?
  refine .bind gives_inSection fun b _ => ?_
  split
  · refine .bind gives_methodSign? fun o _ => ?_
    cases o with
    | some isStatic =>
      refine .bind (gives_method hg isStatic) fun d hd => .pure ?_
      rintro _ ⟨⟩
      exact hd
    | none => exact .bind (gives_fail _) fun _ _ => .pure nofun
  · exact .pure trivial

/-- What the turns of a loop have given. -/
private theorem gives_given {α : Type} {item : Parse (Option (Option α))} {P : α → Prop}
    (h : Gives S item (IfGiven fun o => ∀ a ∈ o, P a)) :
    Gives S (repeated item >>= fun l => Pure.pure (l.filterMap id)) fun l => ∀ a ∈ l, P a := by
  refine .bind (gives_repeated h) fun l hl => .pure fun a ha => ?_
  obtain ⟨o, ho, hoa⟩ := List.mem_filterMap.1 ha
  exact hl o ho a hoa

private theorem gives_superclassName : Gives S superclassName fun o => ∀ ref ∈ o, IsName ref.name.text := by
  refine .bind (gives_accept _) fun b _ => ?_
  split
  · exact .bind gives_expectClass fun t ht => .pure (by rintro _ ⟨⟩; exact ht)
  · exact .pure nofun

/-- A class whose members are read from the tokens. -/
private theorem readFrom_classDef {name : Name} {superclass : Option Ref} {members : List (FunctionDecl ⊕ VarDecl)}
    (hname : IsName name.text) (hsuper : ∀ ref ∈ superclass, IsName ref.name.text)
    (hm : ∀ m ∈ members, MemberReadFrom S m) :
    (Stmt.classDef name superclass (members.filterMap Sum.getLeft?)
      (members.filterMap Sum.getRight?)).ReadFrom S := by
  have hmethods : ∀ d ∈ members.filterMap Sum.getLeft?, d.ReadFrom S := by
    intro d hd
    obtain ⟨m, hmem, hm'⟩ := List.mem_filterMap.1 hd
    exact (hm m hmem).1 d (Sum.getLeft?_eq_some_iff.1 hm')
  have hproperties : ∀ d ∈ members.filterMap Sum.getRight?, d.ReadFrom S := by
    intro d hd
    obtain ⟨m, hmem, hm'⟩ := List.mem_filterMap.1 hd
    exact (hm m hmem).2 d (Sum.getRight?_eq_some_iff.1 hm')
  refine List.forall_mem_cons.2 ⟨⟨⟨List.forall_mem_cons.2 ⟨hname, fun x hx => ?_⟩, trivial⟩, nofun⟩,
    List.forall_mem_append.2 ⟨fun n hn => ?_, List.forall_mem_append.2 ⟨?_, ?_⟩⟩⟩
  · obtain ⟨d, hd, rfl⟩ := List.mem_map.1 hx
    exact (hproperties d hd).1
  · obtain ⟨ref, href, rfl⟩ := List.mem_map.1 hn
    exact ⟨⟨nofun, hsuper ref (Option.mem_toList.1 href)⟩, nofun⟩
  · exact FunctionDecl.forall_nodesList fun d hd => (hmethods d hd).2.2
  · exact VarDecl.forall_nodesList fun d hd => (hproperties d hd).2

private theorem gives_classDeclaration (hg : g.Gives S) : Gives S (classDeclaration g) (Stmt.ReadFrom S) := by
  rw [classDeclaration_eq]
  refine .bind gives_expectClass fun name hname => .bind gives_superclassName fun superclass hsuper => ?_
  refine .bind (gives_given (gives_interfaceMember? hg)) fun members hm => ?_
  exact .bind (gives_expect _) fun _ _ => .pure (readFrom_classDef hname hsuper hm)

private theorem gives_category : Gives S category Any := by
  unfold category
  refine .bind (gives_accept _) fun b _ => ?_
  split
  · refine .bind (gives_accept _) fun _ _ => .bind (gives_accept _) fun _ _ => ?_
    exact .bind (gives_expect _) fun _ _ => .pure trivial
  · exact .pure trivial

private theorem gives_classImplementation (hg : g.Gives S) : Gives S (classImplementation g) (Stmt.ReadFrom S) := by
  rw [classImplementation_eq]
  refine .bind gives_expectClass fun name _ => .bind gives_category fun _ _ => ?_
  refine .bind (gives_given (gives_implementationMember? hg)) fun methods hm => ?_
  refine .bind (gives_expect _) fun _ _ => .pure (List.forall_mem_cons.2 ⟨⟨⟨?_, trivial⟩, nofun⟩, ?_⟩)
  · refine List.forall_mem_append.2 ⟨fun x hx => ?_, fun x hx => ?_⟩
    · obtain ⟨d, hd, hx⟩ := List.mem_flatMap.1 hx
      exact isName_paramNames (hm d hd).2.1 x hx
    · obtain ⟨d, hd, rfl⟩ := List.mem_map.1 hx
      exact (hm d hd).1
  · exact FunctionDecl.forall_nodesList fun d hd => (hm d hd).2.2

private theorem gives_statement (hg : g.Gives S) : Gives S (statement g) (Stmt.ReadFrom S) := by
  unfold statement
  refine .bind gives_current fun t _ => ?_
  split
  · exact .bind gives_advance fun _ _ => gives_block hg
  · exact .bind gives_advance fun _ _ => gives_ifStatement hg
  · exact .bind gives_advance fun _ _ => gives_returnStatement hg
  · exact .bind gives_advance fun _ _ => gives_whileStatement hg
  · exact .bind gives_advance fun _ _ => gives_forStatement hg
  · exact .bind gives_advance fun _ _ => gives_printStatement hg
  · exact .bind gives_advance fun _ _ => gives_classDeclaration hg
  · exact .bind gives_advance fun _ _ => gives_classImplementation hg
  · exact .bind gives_advance fun _ _ => gives_typedefStatement hg
  · exact gives_expressionStatement hg

private theorem gives_start (hg : g.Gives S) : Gives S (start g) (Stmt.ReadFrom S) := by
  refine .bind (gives_type? hg) fun o ho => ?_
  cases o with
  | some type => exact gives_declaration hg ho
  | none => exact gives_statement hg

end Parse

/-- Everything that is parsed is well named. -/
private theorem grammar_gives (n : Nat) : (grammar n).Gives S := by
  induction n with
  | zero =>
    have hnil : (Expr.literal .nil).ReadFrom S := List.forall_mem_singleton.2 ⟨⟨nofun, trivial⟩, nofun⟩
    have hblock : (Stmt.block []).ReadFrom S := List.forall_mem_singleton.2 ⟨⟨nofun, trivial⟩, nofun⟩
    exact ⟨gives_cutOff trivial, gives_cutOff hnil, gives_cutOff hnil, gives_cutOff hnil, gives_cutOff hnil,
      gives_cutOff hblock, gives_cutOff hblock⟩
  | succ n ih =>
    exact ⟨gives_type? ih, gives_expression ih, gives_assignment ih, gives_factor ih, gives_unary ih, gives_start ih,
      gives_statement ih⟩

private theorem gives_topStatement? {g : Grammar} (hg : g.Gives S) :
    Parse.Gives S (topStatement? g) (IfGiven (Stmt.ReadFrom S)) := by
  refine .bind gives_atEnd fun a _ => .bind gives_hadError fun b _ => ?_
  split
  · exact .pure trivial
  · exact .bind hg.start fun s hs => .pure hs

/-- The statements of a list of tokens are read from them. -/
private theorem readFrom_parse {typedefs : Names} {tokens : List Token} {stmts : List Stmt} {c : Cursor}
    (ht : ∀ t ∈ tokens, t.Sorted S) (h : parse typedefs tokens = (.ok stmts, c)) :
    ∀ n ∈ Stmt.nodesList stmts, n.ReadFrom S := by
  have hprogram : Parse.Gives S program fun l => ∀ s ∈ l, s.ReadFrom S :=
    .look fun c => gives_repeated (gives_topStatement? (grammar_gives _))
  exact Stmt.forall_nodesList (hprogram (.ofTokens typedefs tokens) stmts c ht h).1

end

/-! ### The tokens of a source -/

/-- Names and reserved words are written as words. -/
private theorem Written.wordKind {kind : Kind} {text : String} {raw rest : List Char} (h : Written kind text raw rest)
    (hkind : kind = .ident ∨ ∃ k, kind = .keyword k) : WordKind text kind := by
  cases h with
  | word _ _ _ hk => exact hk
  | _ => rcases hkind with hkind | ⟨k, hkind⟩ <;> cases hkind

/-- A token of a source shows by its kind whether it is a reserved word. -/
private theorem Token.Readable.sorted {t : Token} (h : t.Readable) {S : Token → Prop} (hS : S t) : t.Sorted S := by
  obtain ⟨raw, rest, hw⟩ := h
  refine ⟨fun hkind => ?_, fun k hkind => ?_, fun _ => hS⟩
  · have hident : t.kind.unmarked = .ident := by rcases hkind with hkind | hkind <;> rw [hkind] <;> rfl
    rw [hident] at hw
    cases hw.wordKind (.inl rfl) with
    | ident hk => exact List.find?_eq_none.2 fun k _ => by simpa using hk k
  · rw [hkind] at hw
    cases hw.wordKind (.inr ⟨k, rfl⟩) with
    | keyword _ hk => exact hk.symm

private theorem Session.sorted_tokenize (s : Session) (source : String) :
    ∀ t ∈ (s.tokenize source).1, t.Sorted (· ∈ (s.tokenize source).1) := by
  obtain ⟨init, htokens, hinit⟩ := (s.tiles_tokenize source).eof_last
  rw [htokens]
  refine List.forall_mem_append.2 ⟨fun t ht => (hinit t ht).sorted (List.mem_append_left _ ht), ?_⟩
  exact List.forall_mem_singleton.2 (sorted_eof _)

/-- The nodes of a piece have their names and their operators from its tokens. -/
theorem Session.readFrom_parse {s s' : Session} {source : String} {stmts : List Stmt}
    (h : s.parse source = (.ok stmts, s')) : ∀ n ∈ Stmt.nodesList stmts, n.ReadFrom (· ∈ (s.tokenize source).1) := by
  obtain ⟨c, hparse, -⟩ := Session.parse_ok h
  exact ObjScript.readFrom_parse (s.sorted_tokenize source) hparse

/-- The statements of a piece are well named. -/
theorem Session.wellNamed_parse {s s' : Session} {source : String} {stmts : List Stmt}
    (h : s.parse source = (.ok stmts, s')) : ∀ n ∈ Stmt.nodesList stmts, n.WellNamed :=
  fun n hn => (readFrom_parse h n hn).1

end ObjScript
