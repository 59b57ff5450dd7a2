import ObjScript.Parser.Expression
import ObjScript.Proofs.Number.Spelling

/-!
# Expressions written as tokens

`Expr.tokens` writes an expression as a list of tokens, for expressions without message sends and block
literals.  Brackets stand only where the tree has a grouping, so that the tree must be one that needs no
others (`Expr.Fits`): every operand has a level at least as tight as its place asks for.

The levels are numbered from the loosest to the tightest: 0 ternary, 1 assignment, 2 increment, 3 `||`,
4 `&&`, 5 equality, 6 comparison, 7 sum, 8 product, 9 index, 10 the operators on one value, 11 calls and
members, 12 literals, names and brackets.

A tree does not keep all of a token.  `Token.Alike` compares the tokens of a source with those of a tree as
far as the tree can tell.
-/

namespace ObjScript

/-! ### Levels -/

/-- The level of an operator on two values. -/
def BinaryOp.level : BinaryOp → Nat
  | eq | neq => 5
  | lt | gt | gte | lte => 6
  | plus | minus => 7
  | slash | star | mod => 8

/-- The level of a logical operator. -/
def LogicOp.level : LogicOp → Nat
  | or => 3
  | and => 4

/-- The level of an assignment. -/
def AssignOp.level : AssignOp → Nat
  | set | add => 1
  | increment => 2

/-- The level of an expression. -/
def Expr.level : Expr → Nat
  | .ternary _ _ _ => 0
  | .assign _ op _ _ | .set _ _ op _ _ | .setIndex _ _ op _ _ => op.level
  | .logical _ op _ => op.level
  | .binary _ op _ _ => op.level
  | .index _ _ => 9
  | .unary _ _ _ => 10
  | .call _ _ | .get _ _ => 11
  | .literal _ | .variable _ | .selfRef _ | .superRef _ | .grouping _ | .array _ | .block _ _ _ => 12

theorem BinaryOp.level_bounds (op : BinaryOp) : 5 ≤ op.level ∧ op.level ≤ 8 := by
  cases op <;> decide

theorem LogicOp.level_bounds (op : LogicOp) : 3 ≤ op.level ∧ op.level ≤ 4 := by
  cases op <;> decide

theorem AssignOp.level_bounds (op : AssignOp) : 1 ≤ op.level ∧ op.level ≤ 2 := by
  cases op <;> decide

theorem Expr.level_le (e : Expr) : e.level ≤ 12 := by
  cases e with
  | binary _ op _ _ => exact Nat.le_trans op.level_bounds.2 (by decide)
  | logical _ op _ => exact Nat.le_trans op.level_bounds.2 (by decide)
  | assign _ op _ _ | set _ _ op _ _ | setIndex _ _ op _ _ => exact Nat.le_trans op.level_bounds.2 (by decide)
  | _ => simp [level]

/-- The value is one that the assignment can have: an increment adds the literal 1. -/
def AssignOp.Takes (op : AssignOp) (value : Expr) : Prop :=
  match op with
  | set | add => 1 ≤ value.level
  | increment => value = .literal (.number 1)

mutual

/-- Every operand is as tight as its place asks for, and the references are open.  Block literals are left
out. -/
def Expr.Fits : Expr → Prop
  | .literal _ => True
  | .variable ref | .selfRef ref | .superRef ref => ref.depth = none
  | .grouping inner => inner.Fits
  | .unary _ _ operand => operand.Fits ∧ 10 ≤ operand.level
  | .binary left op _ right => left.Fits ∧ right.Fits ∧ op.level ≤ left.level ∧ op.level < right.level
  | .logical left op right => left.Fits ∧ right.Fits ∧ op.level ≤ left.level ∧ op.level < right.level
  | .ternary condition yes no => condition.Fits ∧ yes.Fits ∧ no.Fits ∧ 1 ≤ condition.level
  | .assign target op _ value => target.depth = none ∧ value.Fits ∧ op.Takes value
  | .array items => Expr.FitsList items
  | .index object place => object.Fits ∧ place.Fits ∧ 9 ≤ object.level
  | .setIndex object place op _ value =>
    object.Fits ∧ place.Fits ∧ 9 ≤ object.level ∧ value.Fits ∧ op.Takes value
  | .get object _ => object.Fits ∧ 11 ≤ object.level
  | .set object _ op _ value => object.Fits ∧ 11 ≤ object.level ∧ value.Fits ∧ op.Takes value
  | .call callee args => callee.Fits ∧ 11 ≤ callee.level ∧ Expr.FitsList args
  | .block _ _ _ => False

/-- Every expression of a list fits. -/
def Expr.FitsList : List Expr → Prop
  | [] => True
  | e :: rest => e.Fits ∧ Expr.FitsList rest

end

theorem Expr.fitsList_iff {es : List Expr} : Expr.FitsList es ↔ ∀ e ∈ es, e.Fits := by
  induction es with
  | nil => simp [FitsList]
  | cons e rest ih => simp [FitsList, ih]

/-! ### Tokens -/

/-- The place of a token that the tree has no place for. -/
def Pos.unknown : Pos := ⟨0, 0⟩

/-- The token of a symbol. -/
def Symbol.token (s : Symbol) (pos : Pos) : Token :=
  ⟨.symbol s, s.text, pos⟩

/-- The token of a symbol whose place is not known. -/
def Symbol.mark (s : Symbol) : Token :=
  s.token .unknown

/-- The token of a name. -/
def Name.token (name : Name) : Token :=
  ⟨.ident, name.text, name.pos⟩

/-- The token of a literal. -/
def Literal.token : Literal → Token
  | nil => ⟨.keyword .nil, Keyword.nil.text, .unknown⟩
  | bool true => ⟨.keyword .yes, Keyword.yes.text, .unknown⟩
  | bool false => ⟨.keyword .no, Keyword.no.text, .unknown⟩
  | number x => ⟨.number, Number.spelling x, .unknown⟩
  | string s => ⟨.string, s, .unknown⟩

/-- The operator of an assignment and its value; an increment has none to write. -/
def AssignOp.tokens (op : AssignOp) (pos : Pos) (value : List Token) : List Token :=
  op.symbol.token pos :: match op with
    | set | add => value
    | increment => []

mutual

/-- The tokens of an expression. -/
def Expr.tokens : Expr → List Token
  | .literal value => [value.token]
  | .variable ref => [ref.name.token]
  | .selfRef ref => [⟨.keyword .selfWord, ref.name.text, ref.name.pos⟩]
  | .superRef ref => [⟨.keyword .superWord, ref.name.text, ref.name.pos⟩]
  | .grouping inner => Symbol.lpar.mark :: (inner.tokens ++ [Symbol.rpar.mark])
  | .unary op pos operand => op.symbol.token pos :: operand.tokens
  | .binary left op pos right => left.tokens ++ op.symbol.token pos :: right.tokens
  | .logical left op right => left.tokens ++ op.symbol.mark :: right.tokens
  | .ternary condition yes no =>
    condition.tokens ++ Symbol.qmark.mark :: (yes.tokens ++ Symbol.colon.mark :: no.tokens)
  | .assign target op pos value => target.name.token :: op.tokens pos value.tokens
  | .array items => Symbol.arrayStart.mark :: (Expr.tokensList items ++ [Symbol.rsqb.mark])
  | .index object place => object.tokens ++ Symbol.lsqb.mark :: (place.tokens ++ [Symbol.rsqb.mark])
  | .setIndex object place op pos value =>
    object.tokens ++ Symbol.lsqb.mark :: (place.tokens ++ Symbol.rsqb.mark :: op.tokens pos value.tokens)
  | .get object name => object.tokens ++ [Symbol.dot.mark, name.token]
  | .set object name op pos value =>
    object.tokens ++ Symbol.dot.mark :: name.token :: op.tokens pos value.tokens
  | .call callee args => callee.tokens ++ Symbol.lpar.mark :: (Expr.tokensList args ++ [Symbol.rpar.mark])
  | .block _ _ _ => []

/-- The tokens of expressions with commas between them. -/
def Expr.tokensList : List Expr → List Token
  | [] => []
  | e :: rest => e.tokens ++ Expr.tokensTail rest

/-- The tokens of expressions with a comma before each. -/
def Expr.tokensTail : List Expr → List Token
  | [] => []
  | e :: rest => Symbol.comma.mark :: (e.tokens ++ Expr.tokensTail rest)

end

/-- The level of the expression that a token goes on with, if it can go on with one. -/
def Kind.continuation? : Kind → Option Nat
  | .symbol .qmark => some 0
  | .symbol .assign | .symbol .plusEq => some 1
  | .symbol .incr => some 2
  | .symbol .or => some 3
  | .symbol .and => some 4
  | .symbol .eq | .symbol .neq => some 5
  | .symbol .lt | .symbol .gt | .symbol .gte | .symbol .lte => some 6
  | .symbol .plus | .symbol .minus => some 7
  | .symbol .slash | .symbol .star | .symbol .mod => some 8
  | .symbol .lsqb => some 9
  | .symbol .lpar | .symbol .dot => some 11
  | _ => none

/-- The token can be the first one of an expression without message sends and block literals. -/
def Kind.startsOperand : Kind → Bool
  | .number | .string | .ident | .classIdent => true
  | .keyword .yes | .keyword .no | .keyword .nil | .keyword .selfWord | .keyword .superWord => true
  | .symbol .lpar | .symbol .arrayStart | .symbol .bang | .symbol .minus => true
  | _ => false

/-! ### What a tree keeps of a token -/

/-- What the tree keeps of a token but its place: the kind, the value of a number, the text of a string or of
a name.  Class names are names. -/
def Token.sense (t : Token) : Kind × Option Float × String :=
  match t.kind with
  | .number => (.number, Number.read? t.text, "")
  | .string => (.string, none, t.text)
  | .ident | .classIdent => (.ident, none, t.text)
  | .keyword .selfWord => (.keyword .selfWord, none, t.text)
  | .keyword .superWord => (.keyword .superWord, none, t.text)
  | kind => (kind, none, "")

/-- A token of the source and a token of the tree agree in all that the tree keeps. -/
structure Token.Alike (t u : Token) : Prop where
  sense : t.sense = u.sense
  pos : t.pos = u.pos ∨ u.pos = .unknown

/-- The token can be the last one of an operand. -/
def Kind.endsOperand : Kind → Bool
  | .number | .string | .ident | .classIdent => true
  | .keyword .yes | .keyword .no | .keyword .nil | .keyword .selfWord | .keyword .superWord => true
  | .symbol .rpar | .symbol .rsqb => true
  | _ => false

/-- The tokens have no message send and no block literal.  A bracket `[` opens a message send unless an operand
goes before it, and then it opens an index; `afterOperand` says so for the first token. -/
def Plain (afterOperand : Bool) : List Token → Prop
  | [] => True
  | t :: rest =>
    t.kind ≠ .symbol .caret ∧ (t.kind = .symbol .lsqb → afterOperand = true) ∧ Plain t.kind.endsOperand rest

end ObjScript
