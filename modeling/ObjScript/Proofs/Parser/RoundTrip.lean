import ObjScript.Proofs.Parser.Reading
import ObjScript.Proofs.Syntax.Tokens

/-!
# Reading back the tokens of an expression

The parser gets every expression that fits back from its tokens, whatever follows, as long as the next token
cannot go on with the expression (`expression_tokens`).

A level whose operators go to the left is a loop, and the tokens of its left operand are no part of the
expression that the loop is about to build.  So there the statement is about the loop as a whole
(`LoopsBack`): after the tokens of an expression the parser of the level is where its loop would be, had it
been given the expression.  The induction is on the number of tokens, which also bounds the nesting.
-/

namespace ObjScript

theorem Token.is_iff {t : Token} {kind : Kind} : t.is kind = true ↔ t.kind = kind :=
  decide_eq_true_iff

@[simp] theorem Cursor.current_ofTokens (td : Names) (t : Token) (ts : List Token) :
    (Cursor.ofTokens td (t :: ts)).current = t := rfl

@[simp] theorem Cursor.rest_ofTokens (td : Names) (ts : List Token) : (Cursor.ofTokens td ts).rest = ts := rfl

namespace Parse

variable {α : Type} {g : Grammar}

/-! ### Single tokens -/

section Tokens

variable {td : Names} {t : Token} {ts : List Token} {kind : Kind}

theorem result_advance_cons (h : t.kind ≠ .eof) :
    advance.result (.ofTokens td (t :: ts)) = (.ok t, .ofTokens td ts) := by
  have hadv : (Cursor.ofTokens td (t :: ts)).advance = .ofTokens td ts := by
    unfold Cursor.advance
    exact if_neg fun hend => h (Token.is_iff.1 hend)
  rw [result_advance, hadv]
  rfl

theorem result_accept_cons (h : t.kind = kind) (hk : kind ≠ .eof) :
    (accept kind).result (.ofTokens td (t :: ts)) = (.ok true, .ofTokens td ts) := by
  have hadv : (Cursor.ofTokens td (t :: ts)).advance = .ofTokens td ts :=
    congrArg Prod.snd (result_advance_cons (h ▸ hk))
  rw [result_accept, Cursor.current_ofTokens, if_pos (Token.is_iff.2 h), hadv]

theorem result_accept_of_ne {c : Cursor} (h : c.current.kind ≠ kind) : (accept kind).result c = (.ok false, c) := by
  rw [result_accept, if_neg fun hc => h (Token.is_iff.1 hc)]

theorem result_accept_ne (h : t.kind ≠ kind) :
    (accept kind).result (.ofTokens td (t :: ts)) = (.ok false, .ofTokens td (t :: ts)) :=
  result_accept_of_ne h

theorem result_expect_cons (h : t.kind = kind) (hk : kind ≠ .eof) :
    (expect kind).result (.ofTokens td (t :: ts)) = (.ok t, .ofTokens td ts) := by
  have hadv : (Cursor.ofTokens td (t :: ts)).advance = .ofTokens td ts :=
    congrArg Prod.snd (result_advance_cons (h ▸ hk))
  unfold expect
  rw [result_expectOr, if_pos (by simpa using h), hadv]
  rfl

theorem result_accept_mark (s : Symbol) :
    (accept (.symbol s)).result (.ofTokens td (s.mark :: ts)) = (.ok true, .ofTokens td ts) :=
  result_accept_cons rfl nofun

theorem result_expect_mark (s : Symbol) :
    (expect (.symbol s)).result (.ofTokens td (s.mark :: ts)) = (.ok s.mark, .ofTokens td ts) :=
  result_expect_cons rfl nofun

end Tokens

/-! ### Loops -/

/-- From `a` at `c` the loop goes to `b` at `c'` and stops there.  Every turn reads a token. -/
inductive Loop (step : α → Parse (Option α)) : α → Cursor → α → Cursor → Prop where
  | stop {a : α} {c : Cursor} (h : (step a).result c = (.ok none, c)) : Loop step a c a c
  | turn {a b d : α} {c c₁ c' : Cursor} (h : (step a).result c = (.ok (some b), c₁))
      (hlt : c₁.rest.length < c.rest.length) (hl : Loop step b c₁ d c') : Loop step a c d c'

private theorem Loop.iterate {step : α → Parse (Option α)} {a b : α} {c c' : Cursor} (h : Loop step a c b c') :
    ∀ turns : List Token, c.rest.length < turns.length →
      (Parse.iterate step turns a).result c = (.ok b, c') := by
  induction h with
  | stop h =>
    intro turns hturns
    obtain ⟨t, turns, rfl⟩ := List.exists_cons_of_length_pos (Nat.zero_lt_of_lt hturns)
    unfold Parse.iterate
    rw [result_bind_ok h]
    rfl
  | turn h hlt _ ih =>
    intro turns hturns
    obtain ⟨t, turns, rfl⟩ := List.exists_cons_of_length_pos (Nat.zero_lt_of_lt hturns)
    rw [List.length_cons] at hturns
    unfold Parse.iterate
    rw [result_bind_ok h]
    exact ih turns (by omega)

theorem Loop.extend {step : α → Parse (Option α)} {a b : α} {c c' : Cursor} (h : Loop step a c b c') :
    (Parse.extend a step).result c = (.ok b, c') :=
  h.iterate (c.current :: c.rest) (Nat.lt_succ_self _)

/-- From `c` the loop gives the values of the list and stops at `c'`.  Every turn reads a token. -/
inductive Rounds (item : Parse (Option α)) : Cursor → List α → Cursor → Prop where
  | stop {c : Cursor} (h : item.result c = (.ok none, c)) : Rounds item c [] c
  | turn {a : α} {l : List α} {c c₁ c' : Cursor} (h : item.result c = (.ok (some a), c₁))
      (hlt : c₁.rest.length < c.rest.length) (hl : Rounds item c₁ l c') : Rounds item c (a :: l) c'

private theorem Rounds.many {item : Parse (Option α)} {l : List α} {c c' : Cursor} (h : Rounds item c l c') :
    ∀ turns : List Token, c.rest.length < turns.length → (Parse.many item turns).result c = (.ok l, c') := by
  induction h with
  | stop h =>
    intro turns hturns
    obtain ⟨t, turns, rfl⟩ := List.exists_cons_of_length_pos (Nat.zero_lt_of_lt hturns)
    unfold Parse.many
    rw [result_bind_ok h]
    rfl
  | turn h hlt _ ih =>
    intro turns hturns
    obtain ⟨t, turns, rfl⟩ := List.exists_cons_of_length_pos (Nat.zero_lt_of_lt hturns)
    rw [List.length_cons] at hturns
    unfold Parse.many
    rw [result_bind_ok h]
    dsimp only
    rw [result_bind_ok (ih turns (by omega))]
    rfl

theorem Rounds.repeated {item : Parse (Option α)} {l : List α} {c c' : Cursor} (h : Rounds item c l c') :
    (Parse.repeated item).result c = (.ok l, c') :=
  h.many (c.current :: c.rest) (Nat.lt_succ_self _)

/-! ### Levels -/

/-- The parser of each level. -/
def levelParser (g : Grammar) : Nat → Parse Expr
  | 0 => expression g
  | 1 => assignment g
  | 2 => increment g
  | 3 => disjunction g
  | 4 => conjunction g
  | 5 => equality g
  | 6 => comparison g
  | 7 => term g
  | 8 => factor g
  | 9 => index g
  | 10 => unary g
  | 11 => call g
  | _ => primary g

/-- The turns of a level that is a loop. -/
def levelStep (g : Grammar) : Nat → Expr → Parse (Option Expr)
  | 3 => logicalSuffix? (conjunction g) .or
  | 4 => logicalSuffix? (equality g) .and
  | 5 => binarySuffix? (comparison g) equalityOp?
  | 6 => binarySuffix? (term g) comparisonOp?
  | 7 => binarySuffix? (factor g) sumOp?
  | 8 => binarySuffix? (index g) productOp?
  | 9 => indexSuffix? g
  | 11 => callSuffix? g
  | _ => fun _ => pure none

/-- The levels that are loops. -/
def IsLoop (level : Nat) : Prop :=
  3 ≤ level ∧ level ≤ 9 ∨ level = 11

/-- A token of this kind does not go on with an expression of the level or of a tighter one. -/
def Stops (level : Nat) (kind : Kind) : Prop :=
  ∀ l ∈ kind.continuation?, l < level

theorem Stops.mono {l l' : Nat} {kind : Kind} (h : Stops l kind) (hl : l ≤ l') : Stops l' kind :=
  fun i hi => Nat.lt_of_lt_of_le (h i hi) hl

theorem stops_of_none {kind : Kind} (h : kind.continuation? = none) (level : Nat) : Stops level kind := by
  intro l hl
  rw [h] at hl
  cases hl

private theorem Stops.ne {l : Nat} {kind : Kind} (h : Stops l kind) {s : Symbol}
    (hs : ∃ i ∈ (Kind.symbol s).continuation?, l ≤ i) : kind ≠ .symbol s := by
  rintro rfl
  obtain ⟨i, hi, hl⟩ := hs
  exact absurd (h i hi) (Nat.not_lt.2 hl)

/-- The parser gets the expression back from its tokens, before a token that does not go on with it. -/
def ReadsBack (p : Parse Expr) (level : Nat) (e : Expr) : Prop :=
  ∀ td t ts, Stops level t.kind →
    p.result (.ofTokens td (e.tokens ++ t :: ts)) = (.ok e, .ofTokens td (t :: ts))

/-- After the tokens of an expression the parser of the level goes on as its loop does from the expression. -/
def LoopsBack (g : Grammar) (level : Nat) (e : Expr) : Prop :=
  ∀ td t ts b c', Stops (level + 1) t.kind → Loop (levelStep g level) e (.ofTokens td (t :: ts)) b c' →
    (levelParser g level).result (.ofTokens td (e.tokens ++ t :: ts)) = (.ok b, c')

/-- An operator of the level is one that goes on with it. -/
theorem binaryOp?_of_stops {level : Nat} {kind : Kind} (h : Stops level kind) :
    (level ≤ 5 → equalityOp? kind = none) ∧ (level ≤ 6 → comparisonOp? kind = none) ∧
      (level ≤ 7 → sumOp? kind = none) ∧ (level ≤ 8 → productOp? kind = none) := by
  unfold Stops Kind.continuation? at h
  refine ⟨fun hl => ?_, fun hl => ?_, fun hl => ?_, fun hl => ?_⟩
  · unfold equalityOp?
    split <;> first | rfl | (simp at h; omega)
  · unfold comparisonOp?
    split <;> first | rfl | (simp at h; omega)
  · unfold sumOp?
    split <;> first | rfl | (simp at h; omega)
  · unfold productOp?
    split <;> first | rfl | (simp at h; omega)

/-! ### Going on to a looser level -/

section Levels

variable {e : Expr}

theorem stops_levelStep {level : Nat} (hl : IsLoop level) {c : Cursor} (h : Stops level c.current.kind) (e : Expr) :
    (levelStep g level e).result c = (.ok none, c) := by
  obtain ⟨heq, hcmp, hsum, hprod⟩ := binaryOp?_of_stops h
  have logical : ∀ operand (op : LogicOp), c.current.kind ≠ .symbol op.symbol →
      (logicalSuffix? operand op e).result c = (.ok none, c) := by
    intro operand op hne
    unfold logicalSuffix?
    rw [result_bind_ok (result_accept_of_ne hne)]
    rfl
  have binary : ∀ operand op?, op? c.current.kind = none →
      (binarySuffix? operand op? e).result c = (.ok none, c) := by
    intro operand op? hnone
    unfold binarySuffix?
    rw [result_bind_ok (result_current _)]
    simp only [hnone]
    rfl
  have hcases : level = 3 ∨ level = 4 ∨ level = 5 ∨ level = 6 ∨ level = 7 ∨ level = 8 ∨ level = 9 ∨ level = 11 := by
    unfold IsLoop at hl
    omega
  rcases hcases with rfl | rfl | rfl | rfl | rfl | rfl | rfl | rfl
  · exact logical _ .or (h.ne ⟨3, rfl, by omega⟩)
  · exact logical _ .and (h.ne ⟨4, rfl, by omega⟩)
  · exact binary _ _ (heq (by omega))
  · exact binary _ _ (hcmp (by omega))
  · exact binary _ _ (hsum (by omega))
  · exact binary _ _ (hprod (by omega))
  · show (indexSuffix? g e).result _ = _
    unfold indexSuffix?
    rw [result_bind_ok (result_accept_of_ne (h.ne ⟨9, rfl, by omega⟩))]
    rfl
  · show (callSuffix? g e).result _ = _
    unfold callSuffix?
    rw [result_bind_ok (result_accept_of_ne (h.ne ⟨11, rfl, by omega⟩)), if_neg (by simp),
      result_bind_ok (result_accept_of_ne (h.ne ⟨11, rfl, by omega⟩))]
    rfl

private theorem LoopsBack.readsBack {level : Nat} (hl : IsLoop level) (h : LoopsBack g level e) :
    ReadsBack (levelParser g level) level e :=
  fun td t ts hs => h td t ts e _ (hs.mono (by omega)) (.stop (stops_levelStep (c := .ofTokens td (t :: ts)) hl hs e))

/-- The tokens of an operand on which the operators on one value, block literals and messages have no claim. -/
def Headed (e : Expr) : Prop :=
  ∃ t ts, e.tokens = t :: ts ∧ unaryOp? t.kind = none ∧ t.kind ≠ .symbol .caret ∧ t.kind ≠ .symbol .lsqb

private theorem loopsBack_of_readsBack {level : Nat} (hl : IsLoop level) (hh : level = 11 → Headed e)
    (h : ReadsBack (levelParser g (level + 1)) (level + 1) e) : LoopsBack g level e := by
  intro td t ts b c' hs hloop
  have bind : ∀ p : Parse Expr,
      p.result (.ofTokens td (e.tokens ++ t :: ts)) = (.ok e, .ofTokens td (t :: ts)) →
      (p >>= fun a => extend a (levelStep g level)).result (.ofTokens td (e.tokens ++ t :: ts)) = (.ok b, c') := by
    intro p hp
    rw [result_bind_ok hp]
    exact hloop.extend
  have hback := h td t ts hs
  have hcases : level = 3 ∨ level = 4 ∨ level = 5 ∨ level = 6 ∨ level = 7 ∨ level = 8 ∨ level = 9 ∨ level = 11 := by
    unfold IsLoop at hl
    omega
  rcases hcases with rfl | rfl | rfl | rfl | rfl | rfl | rfl | rfl
  · exact bind _ hback
  · exact bind _ hback
  · exact bind _ hback
  · exact bind _ hback
  · exact bind _ hback
  · exact bind _ hback
  · exact bind _ hback
  · -- between calls and names stand the messages
    refine bind (messageSend g) ?_
    obtain ⟨u, us, hu, -, -, hne⟩ := hh rfl
    have hback : (primary g).result _ = _ := hback
    rw [hu, List.cons_append] at hback ⊢
    unfold messageSend
    rw [result_bind_ok (result_accept_ne hne)]
    exact hback

/-- Where the next token does not go on with it, what the parser of a level reads is read by that of the next looser
level. -/
theorem levelParser_looser {level : Nat} {c c' : Cursor} (hlt : level < 11)
    (hhead : level = 10 → unaryOp? c.current.kind = none ∧ c.current.kind ≠ .symbol .caret)
    (hs : Stops level c'.current.kind) (h : (levelParser g (level + 1)).result c = (.ok e, c')) :
    (levelParser g level).result c = (.ok e, c') := by
  have loop : ∀ p : Parse Expr, p.result c = (.ok e, c') → IsLoop level →
      (p >>= fun a => extend a (levelStep g level)).result c = (.ok e, c') := by
    intro p hp hl
    rw [result_bind_ok hp]
    exact (Loop.stop (stops_levelStep hl hs e)).extend
  have hcases : level = 0 ∨ level = 1 ∨ level = 2 ∨ level = 3 ∨ level = 4 ∨ level = 5 ∨ level = 6 ∨ level = 7 ∨
      level = 8 ∨ level = 9 ∨ level = 10 := by omega
  rcases hcases with rfl | rfl | rfl | rfl | rfl | rfl | rfl | rfl | rfl | rfl | rfl
  · have hback : (assignment g).result c = _ := h
    show (expression g).result _ = _
    unfold expression
    rw [result_bind_ok hback, result_bind_ok (result_accept_of_ne (hs.ne ⟨0, rfl, by omega⟩))]
    rfl
  · have hop : assignOp? c'.current.kind = none := by
      unfold assignOp?
      split <;> first | rfl | exact absurd ‹c'.current.kind = _› (hs.ne ⟨1, rfl, by omega⟩)
    have hback : (increment g).result c = _ := h
    show (assignment g).result _ = _
    unfold assignment
    rw [result_bind_ok hback, result_bind_ok (result_current _)]
    simp only [hop]
    rfl
  · have hback : (disjunction g).result c = _ := h
    show (increment g).result _ = _
    unfold increment
    rw [result_bind_ok hback, result_bind_ok (result_current _),
      result_bind_ok (result_accept_of_ne (hs.ne ⟨2, rfl, by omega⟩))]
    rfl
  · exact loop _ h (.inl (by omega))
  · exact loop _ h (.inl (by omega))
  · exact loop _ h (.inl (by omega))
  · exact loop _ h (.inl (by omega))
  · exact loop _ h (.inl (by omega))
  · exact loop _ h (.inl (by omega))
  · exact loop _ h (.inl (by omega))
  · obtain ⟨hop, hne⟩ := hhead rfl
    have hback : (call g).result c = _ := h
    show (unary g).result _ = _
    unfold unary blockLiteral
    rw [result_bind_ok (result_current _)]
    simp only [hop]
    rw [result_bind_ok (result_accept_of_ne hne)]
    exact hback

/-- What the parser of a level reads back, the parser of the next looser level reads back. -/
private theorem ReadsBack.looser {level : Nat} (hlt : level < 12) (hh : 10 ≤ level → Headed e)
    (h : ReadsBack (levelParser g (level + 1)) (level + 1) e) : ReadsBack (levelParser g level) level e := by
  rcases Nat.lt_succ_iff_lt_or_eq.1 hlt with hlt | rfl
  · intro td t ts hs
    refine levelParser_looser hlt (fun h10 => ?_) hs (h td t ts (hs.mono (by omega)))
    obtain ⟨u, us, hu, hop, hne, -⟩ := hh (by omega)
    rw [hu]
    exact ⟨hop, hne⟩
  · exact (loopsBack_of_readsBack (.inr rfl) (fun h11 => hh (by omega)) h).readsBack (.inr rfl)

/-- The first token of an expression is an operator on one value, a literal, a name or an opening bracket, and
the operator comes first only if the expression is no tighter. -/
private theorem head_of_fits : (e : Expr) → e.Fits →
    ∃ t ts, e.tokens = t :: ts ∧ t.kind.startsOperand = true ∧ (11 ≤ e.level → unaryOp? t.kind = none)
  | .literal value, _ => by
    refine ⟨value.token, [], rfl, ?_⟩
    rcases value with _ | (_ | _) | x | s
    all_goals exact ⟨rfl, fun _ => rfl⟩
  | .variable _, _ | .selfRef _, _ | .superRef _, _ => ⟨_, [], rfl, rfl, fun _ => rfl⟩
  | .grouping _, _ | .array _, _ => ⟨_, _, rfl, rfl, fun _ => rfl⟩
  | .unary op pos _, _ => ⟨_, _, rfl, by cases op <;> rfl, fun h => absurd h (by simp [Expr.level])⟩
  | .assign _ op _ _, _ => ⟨_, _, rfl, rfl, fun _ => rfl⟩
  | .call callee _, hf => by
    obtain ⟨t, ts, ht, hs, hu⟩ := head_of_fits callee hf.1
    exact ⟨t, _, by rw [Expr.tokens, ht]; rfl, hs, fun _ => hu hf.2.1⟩
  | .get object _, hf => by
    obtain ⟨t, ts, ht, hs, hu⟩ := head_of_fits object hf.1
    exact ⟨t, _, by rw [Expr.tokens, ht]; rfl, hs, fun _ => hu hf.2⟩
  | .set object _ op _ _, hf => by
    obtain ⟨t, ts, ht, hs, hu⟩ := head_of_fits object hf.1
    exact ⟨t, _, by rw [Expr.tokens, ht]; rfl, hs, fun _ => hu hf.2.1⟩
  | .index object _, hf => by
    obtain ⟨t, ts, ht, hs, -⟩ := head_of_fits object hf.1
    exact ⟨t, _, by rw [Expr.tokens, ht]; rfl, hs, fun h => absurd h (by simp [Expr.level])⟩
  | .setIndex object _ op _ _, hf => by
    obtain ⟨t, ts, ht, hs, -⟩ := head_of_fits object hf.1
    have := op.level_bounds
    exact ⟨t, _, by rw [Expr.tokens, ht]; rfl, hs, fun h => absurd h (by simp only [Expr.level]; omega)⟩
  | .binary left op _ _, hf => by
    obtain ⟨t, ts, ht, hs, -⟩ := head_of_fits left hf.1
    have := op.level_bounds
    exact ⟨t, _, by rw [Expr.tokens, ht]; rfl, hs, fun h => absurd h (by simp only [Expr.level]; omega)⟩
  | .logical left op _, hf => by
    obtain ⟨t, ts, ht, hs, -⟩ := head_of_fits left hf.1
    have := op.level_bounds
    exact ⟨t, _, by rw [Expr.tokens, ht]; rfl, hs, fun h => absurd h (by simp only [Expr.level]; omega)⟩
  | .ternary condition _ _, hf => by
    obtain ⟨t, ts, ht, hs, -⟩ := head_of_fits condition hf.1
    exact ⟨t, _, by rw [Expr.tokens, ht]; rfl, hs, fun h => absurd h (by simp [Expr.level])⟩

private theorem Headed.of_fits (hf : e.Fits) (hl : 11 ≤ e.level) : Headed e := by
  obtain ⟨t, ts, ht, hs, hu⟩ := head_of_fits e hf
  refine ⟨t, ts, ht, hu hl, ?_, ?_⟩
  · intro hk
    rw [hk] at hs
    cases hs
  · intro hk
    rw [hk] at hs
    cases hs

/-- The parsers of all levels that the expression may stand at get it back. -/
structure Back (g : Grammar) (e : Expr) : Prop where
  reads : ∀ level, level ≤ e.level → ReadsBack (levelParser g level) level e
  loops : ∀ level, level ≤ e.level → IsLoop level → LoopsBack g level e

private theorem readsBack_of_level (hf : e.Fits) (h : ReadsBack (levelParser g e.level) e.level e) :
    ∀ d level, level + d = e.level → ReadsBack (levelParser g level) level e := by
  intro d
  induction d with
  | zero =>
    rintro level rfl
    exact h
  | succ d ih =>
    intro level hd
    have := Expr.level_le e
    exact (ih (level + 1) (by omega)).looser (by omega) fun h10 => Headed.of_fits hf (by omega)

/-- It is enough to read the expression back at its own level. -/
private theorem Back.of_level (hf : e.Fits) (h : ReadsBack (levelParser g e.level) e.level e)
    (hl : IsLoop e.level → LoopsBack g e.level e) : Back g e := by
  have reads : ∀ level, level ≤ e.level → ReadsBack (levelParser g level) level e :=
    fun level hle => readsBack_of_level hf h (e.level - level) level (by omega)
  refine ⟨reads, fun level hle hloop => ?_⟩
  rcases Nat.lt_or_eq_of_le hle with hlt | rfl
  · exact loopsBack_of_readsBack hloop (fun h11 => Headed.of_fits hf (by omega)) (reads (level + 1) hlt)
  · exact hl hloop

/-- At a level that is a loop it is enough to look at the loop. -/
private theorem Back.of_loop (hf : e.Fits) (hloop : IsLoop e.level) (hl : LoopsBack g e.level e) : Back g e :=
  .of_level hf (hl.readsBack hloop) fun _ => hl

end Levels

/-! ### Expressions in brackets -/

section Arguments

/-- The parsers of the grammar that are called after a token get the expression back. -/
structure Deep (g : Grammar) (e : Expr) : Prop where
  expression : ReadsBack g.expression 0 e
  assignment : 1 ≤ e.level → ReadsBack g.assignment 1 e
  unary : 10 ≤ e.level → ReadsBack g.unary 10 e

variable {args : List Expr}

private theorem stops_mark {s : Symbol} (h : (Kind.symbol s).continuation? = none) (level : Nat) :
    Stops level s.mark.kind :=
  stops_of_none h level

/-- An expression of a list is followed by a comma or by the closing bracket. -/
private theorem tokensTail_head (args : List Expr) (ts : List Token) {closing : Symbol}
    (hstop : (Kind.symbol closing).continuation? = none) :
    ∃ s us, Expr.tokensTail args ++ closing.mark :: ts = Symbol.mark s :: us ∧
      (Kind.symbol s).continuation? = none := by
  cases args with
  | nil => exact ⟨closing, ts, rfl, hstop⟩
  | cons e args => exact ⟨.comma, _, rfl, rfl⟩

private theorem rounds_tokensTail (td : Names) (ts : List Token) (closing : Symbol) (hne : closing ≠ .comma)
    (hstop : (Kind.symbol closing).continuation? = none) (h : ∀ e ∈ args, Deep g e) :
    Rounds (do if ← accept (.symbol .comma) then return some (← g.expression) else return none)
      (.ofTokens td (Expr.tokensTail args ++ closing.mark :: ts)) args (.ofTokens td (closing.mark :: ts)) := by
  induction args with
  | nil =>
    have hkind : closing.mark.kind ≠ .symbol .comma := fun hk => hne (Kind.symbol.inj hk)
    have hnone : (accept (.symbol .comma)).result (.ofTokens td (closing.mark :: ts)) = (.ok false, _) :=
      result_accept_ne hkind
    refine .stop ?_
    simp only [Expr.tokensTail, List.nil_append]
    rw [result_bind_ok hnone]
    rfl
  | cons e args ih =>
    obtain ⟨hfirst, hargs⟩ := List.forall_mem_cons.1 h
    obtain ⟨s, us, hs, hnone⟩ := tokensTail_head args ts hstop
    have he := hfirst.expression td s.mark us (stops_mark hnone 0)
    rw [← hs] at he
    simp only [Expr.tokensTail, List.cons_append, List.append_assoc]
    refine .turn ?_ ?_ (ih hargs)
    · rw [result_bind_ok (result_accept_mark _), if_pos rfl, result_bind_ok he]
      rfl
    · simp only [Cursor.rest_ofTokens, List.length_cons, List.length_append]
      omega

private theorem result_arguments (td : Names) (ts : List Token) (closing : Symbol)
    (hc : closing = .rpar ∨ closing = .rsqb)
    (hfits : ∀ e ∈ args, e.Fits) (h : ∀ e ∈ args, Deep g e) :
    (arguments g closing).result (.ofTokens td (Expr.tokensList args ++ closing.mark :: ts)) =
      (.ok args, .ofTokens td ts) := by
  have hstop : (Kind.symbol closing).continuation? = none := by
    rcases hc with rfl | rfl <;> rfl
  have hne : closing ≠ .comma := by
    rcases hc with rfl | rfl <;> decide
  cases args with
  | nil =>
    have hcheck : (check (.symbol closing)).result (.ofTokens td (closing.mark :: ts)) =
        (.ok true, .ofTokens td (closing.mark :: ts)) := by
      rw [result_check, Cursor.current_ofTokens,
        show closing.mark.is (.symbol closing) = true from Token.is_iff.2 rfl]
    unfold arguments
    simp only [Expr.tokensList, List.nil_append]
    rw [result_bind_ok hcheck]
    simp only [↓reduceIte, pure_bind]
    rw [result_bind_ok (result_expect_mark _)]
    rfl
  | cons e args =>
    obtain ⟨t, us, ht, hstart, -⟩ := head_of_fits e (List.forall_mem_cons.1 hfits).1
    have hkind : t.kind ≠ .symbol closing := by
      intro hk
      rw [hk] at hstart
      rcases hc with rfl | rfl <;> cases hstart
    obtain ⟨s, vs, hs, hnone⟩ := tokensTail_head args ts hstop
    have he := (List.forall_mem_cons.1 h).1.expression td s.mark vs (stops_mark hnone 0)
    rw [← hs] at he
    have hothers := (rounds_tokensTail td ts closing hne hstop (List.forall_mem_cons.1 h).2).repeated
    have hcheck : (check (.symbol closing)).result
          (.ofTokens td (e.tokens ++ (Expr.tokensTail args ++ closing.mark :: ts))) =
        (.ok false, .ofTokens td (e.tokens ++ (Expr.tokensTail args ++ closing.mark :: ts))) := by
      rw [result_check, ht, List.cons_append, Cursor.current_ofTokens,
        Bool.eq_false_iff.2 fun hk => hkind (Token.is_iff.1 hk)]
    unfold arguments commaSeparated
    simp only [Expr.tokensList, List.append_assoc]
    rw [result_bind_ok hcheck]
    simp only [Bool.false_eq_true, ↓reduceIte, bind_assoc]
    rw [result_bind_ok he, result_bind_ok hothers]
    simp only [pure_bind]
    rw [result_bind_ok (result_expect_mark _)]
    rfl

end Arguments

/-! ### One constructor after the other -/

section Constructors

variable {e : Expr}

private theorem levelStep_binary (g : Grammar) (op : BinaryOp) :
    ∃ op?, levelStep g op.level = binarySuffix? (levelParser g (op.level + 1)) op? ∧
      op? (.symbol op.symbol) = some op := by
  cases op <;> exact ⟨_, rfl, rfl⟩

private theorem levelStep_logical (g : Grammar) (op : LogicOp) :
    levelStep g op.level = logicalSuffix? (levelParser g (op.level + 1)) op := by
  cases op <;> rfl

private theorem continuation?_binary (op : BinaryOp) : (Kind.symbol op.symbol).continuation? = some op.level := by
  cases op <;> rfl

private theorem continuation?_logical (op : LogicOp) : (Kind.symbol op.symbol).continuation? = some op.level := by
  cases op <;> rfl

private theorem stops_of_continuation? {kind : Kind} {l level : Nat} (h : kind.continuation? = some l)
    (hl : l < level) :
    Stops level kind := by
  intro i hi
  rw [h] at hi
  cases hi
  exact hl

/-- An expression that `primary` reads. -/
private theorem back_primary (hf : e.Fits) (hl : e.level = 12)
    (h : ∀ td u ts, (primary g).result (.ofTokens td (e.tokens ++ u :: ts)) = (.ok e, .ofTokens td (u :: ts))) :
    Back g e := by
  refine .of_level hf ?_ fun hloop => absurd hloop (by simp [IsLoop, hl])
  rw [hl]
  exact fun td u ts _ => h td u ts

private theorem back_literal (value : Literal) : Back g (.literal value) := by
  refine back_primary trivial rfl fun td u ts => ?_
  have hadv : advance.result (.ofTokens td (value.token :: u :: ts)) = (.ok value.token, .ofTokens td (u :: ts)) :=
    result_advance_cons (by rcases value with _ | (_ | _) | x | s <;> nofun)
  show (primary g).result (.ofTokens td (value.token :: u :: ts)) = _
  unfold primary
  rw [result_bind_ok (result_current _), Cursor.current_ofTokens]
  rcases value with _ | (_ | _) | x | s
  · exact result_bind_ok hadv
  · exact result_bind_ok hadv
  · exact result_bind_ok hadv
  · refine (result_bind_ok hadv).trans ?_
    simp only [Literal.token, Number.read?_spelling]
    rfl
  · exact result_bind_ok hadv

/-- A name, `self` or `super`. -/
private theorem back_reference {ref : Ref} (h : ref.depth = none) :
    Back g (.variable ref) ∧ Back g (.selfRef ref) ∧ Back g (.superRef ref) := by
  obtain ⟨name, depth⟩ := ref
  obtain rfl : depth = none := h
  refine ⟨back_primary rfl rfl fun td u ts => ?_, back_primary rfl rfl fun td u ts => ?_,
    back_primary rfl rfl fun td u ts => ?_⟩
  · have hadv := @result_advance_cons td name.token (u :: ts) nofun
    show (primary g).result (.ofTokens td (name.token :: u :: ts)) = _
    unfold primary
    rw [result_bind_ok (result_current _), Cursor.current_ofTokens]
    exact result_bind_ok hadv
  · have hadv := @result_advance_cons td ⟨.keyword .selfWord, name.text, name.pos⟩ (u :: ts) nofun
    show (primary g).result (.ofTokens td (⟨.keyword .selfWord, name.text, name.pos⟩ :: u :: ts)) = _
    unfold primary
    rw [result_bind_ok (result_current _), Cursor.current_ofTokens]
    exact result_bind_ok hadv
  · have hadv := @result_advance_cons td ⟨.keyword .superWord, name.text, name.pos⟩ (u :: ts) nofun
    show (primary g).result (.ofTokens td (⟨.keyword .superWord, name.text, name.pos⟩ :: u :: ts)) = _
    unfold primary
    rw [result_bind_ok (result_current _), Cursor.current_ofTokens]
    exact result_bind_ok hadv

private theorem back_grouping {inner : Expr} (hf : inner.Fits) (h : Deep g inner) : Back g (.grouping inner) := by
  refine back_primary hf rfl fun td u ts => ?_
  have hadv := @result_advance_cons td Symbol.lpar.mark (inner.tokens ++ Symbol.rpar.mark :: u :: ts) nofun
  have hinner := h.expression td Symbol.rpar.mark (u :: ts) (stops_mark rfl 0)
  simp only [Expr.tokens, List.cons_append, List.append_assoc, List.nil_append]
  unfold primary
  rw [result_bind_ok (result_current _), Cursor.current_ofTokens]
  refine (result_bind_ok hadv).trans ?_
  rw [result_bind_ok hinner, result_bind_ok (result_expect_mark _)]
  rfl

private theorem back_array {items : List Expr} (hf : Expr.FitsList items) (h : ∀ e ∈ items, Deep g e) :
    Back g (.array items) := by
  refine back_primary hf rfl fun td u ts => ?_
  have hadv := @result_advance_cons td Symbol.arrayStart.mark
    (Expr.tokensList items ++ Symbol.rsqb.mark :: u :: ts) nofun
  have hargs := result_arguments td (u :: ts) .rsqb (.inr rfl) (Expr.fitsList_iff.1 hf) h
  simp only [Expr.tokens, List.cons_append, List.append_assoc, List.nil_append]
  unfold primary
  rw [result_bind_ok (result_current _), Cursor.current_ofTokens]
  refine (result_bind_ok hadv).trans ?_
  rw [result_bind_ok hargs]
  rfl

private theorem back_unary {op : UnaryOp} {pos : Pos} {operand : Expr} (hf : (Expr.unary op pos operand).Fits)
    (h : Deep g operand) : Back g (.unary op pos operand) := by
  refine .of_level hf (fun td t ts hs => ?_) fun h => absurd h (by simp [IsLoop, Expr.level])
  have hoperand := h.unary hf.2 td t ts hs
  have hop : unaryOp? (op.symbol.token pos).kind = some op := by cases op <;> rfl
  have hadv := @result_advance_cons td (op.symbol.token pos) (operand.tokens ++ t :: ts) (by simp [Symbol.token])
  show (unary g).result (.ofTokens td (op.symbol.token pos :: (operand.tokens ++ t :: ts))) = _
  unfold unary
  rw [result_bind_ok (result_current _), Cursor.current_ofTokens]
  simp only [hop]
  rw [result_bind_ok hadv, result_bind_ok hoperand]
  rfl

/-- An operator between its operands is one more turn of the loop. -/
private theorem loopsBack_of_turn {left : Expr} {level : Nat} {u : Token} {us : List Token}
    (hleft : LoopsBack g level left) (hu : Stops (level + 1) u.kind) (htokens : e.tokens = left.tokens ++ u :: us)
    (hturn : ∀ td t ts, Stops (level + 1) t.kind →
      (levelStep g level left).result (.ofTokens td (u :: (us ++ t :: ts))) =
        (.ok (some e), .ofTokens td (t :: ts))) : LoopsBack g level e := by
  intro td t ts b c' hs hloop
  rw [htokens, List.append_assoc, List.cons_append]
  refine hleft td u (us ++ t :: ts) b c' hu (.turn (hturn td t ts hs) ?_ hloop)
  simp only [Cursor.rest_ofTokens, List.length_cons, List.length_append]
  omega

private theorem back_binary {left right : Expr} {op : BinaryOp} {pos : Pos}
    (hf : (Expr.binary left op pos right).Fits)
    (hl : Back g left) (hr : Back g right) : Back g (.binary left op pos right) := by
  have := op.level_bounds
  have hloop : IsLoop op.level := .inl (by omega)
  obtain ⟨op?, hstep, hop⟩ := levelStep_binary g op
  refine .of_loop hf hloop (loopsBack_of_turn (hl.loops op.level hf.2.2.1 hloop)
    (stops_of_continuation? (continuation?_binary op) (Nat.lt_succ_self _)) rfl fun td t ts hs => ?_)
  have hright := hr.reads (op.level + 1) hf.2.2.2 td t ts hs
  have hop : op? (op.symbol.token pos).kind = some op := hop
  have hadv := @result_advance_cons td (op.symbol.token pos) (right.tokens ++ t :: ts) nofun
  rw [show levelStep g (Expr.binary left op pos right).level = _ from hstep]
  unfold binarySuffix?
  rw [result_bind_ok (result_current _), Cursor.current_ofTokens]
  simp only [hop]
  rw [result_bind_ok hadv, result_bind_ok hright]
  rfl

private theorem back_logical {left right : Expr} {op : LogicOp} (hf : (Expr.logical left op right).Fits)
    (hl : Back g left) (hr : Back g right) : Back g (.logical left op right) := by
  have := op.level_bounds
  have hloop : IsLoop op.level := .inl (by omega)
  refine .of_loop hf hloop (loopsBack_of_turn (hl.loops op.level hf.2.2.1 hloop)
    (stops_of_continuation? (continuation?_logical op) (Nat.lt_succ_self _)) rfl fun td t ts hs => ?_)
  have hright := hr.reads (op.level + 1) hf.2.2.2 td t ts hs
  rw [show levelStep g (Expr.logical left op right).level = _ from levelStep_logical g op]
  unfold logicalSuffix?
  rw [result_bind_ok (result_accept_mark _)]
  simp only [↓reduceIte]
  rw [result_bind_ok hright]
  rfl

private theorem back_index {object place : Expr} (hf : (Expr.index object place).Fits) (ho : Back g object)
    (hp : Deep g place) : Back g (.index object place) := by
  have hloop : IsLoop 9 := .inl (by omega)
  refine .of_loop hf hloop (loopsBack_of_turn (ho.loops 9 hf.2.2 hloop)
    (stops_of_continuation? rfl (Nat.lt_succ_self _)) rfl fun td t ts hs => ?_)
  have hplace := hp.expression td Symbol.rsqb.mark (t :: ts) (stops_mark rfl 0)
  show (indexSuffix? g object).result _ = _
  simp only [List.append_assoc, List.cons_append, List.nil_append]
  unfold indexSuffix?
  rw [result_bind_ok (result_accept_mark _)]
  simp only [↓reduceIte]
  rw [result_bind_ok hplace, result_bind_ok (result_expect_mark _)]
  rfl

private theorem back_call {callee : Expr} {args : List Expr} (hf : (Expr.call callee args).Fits) (hc : Back g callee)
    (hargs : ∀ e ∈ args, Deep g e) : Back g (.call callee args) := by
  have hloop : IsLoop 11 := .inr rfl
  refine .of_loop hf hloop (loopsBack_of_turn (hc.loops 11 hf.2.1 hloop)
    (stops_of_continuation? rfl (Nat.lt_succ_self _)) rfl fun td t ts hs => ?_)
  have hresult := result_arguments td (t :: ts) .rpar (.inl rfl) (Expr.fitsList_iff.1 hf.2.2) hargs
  show (callSuffix? g callee).result _ = _
  simp only [List.append_assoc, List.cons_append, List.nil_append]
  unfold callSuffix?
  rw [result_bind_ok (result_accept_mark _)]
  simp only [↓reduceIte]
  rw [result_bind_ok hresult]
  rfl

private theorem back_get {object : Expr} {name : Name} (hf : (Expr.get object name).Fits) (ho : Back g object) :
    Back g (.get object name) := by
  have hloop : IsLoop 11 := .inr rfl
  refine .of_loop hf hloop (loopsBack_of_turn (ho.loops 11 hf.2 hloop)
    (stops_of_continuation? rfl (Nat.lt_succ_self _)) rfl fun td t ts hs => ?_)
  have hname :
      (expect .ident).result (.ofTokens td (name.token :: t :: ts)) = (.ok name.token, .ofTokens td (t :: ts)) :=
    result_expect_cons rfl nofun
  have hdot :
      (accept (.symbol .lpar)).result (.ofTokens td (Symbol.dot.mark :: name.token :: t :: ts)) = (.ok false, _) :=
    result_accept_ne nofun
  show (callSuffix? g object).result _ = _
  simp only [List.cons_append, List.nil_append]
  unfold callSuffix?
  rw [result_bind_ok hdot]
  simp only [Bool.false_eq_true, ↓reduceIte]
  rw [result_bind_ok (result_accept_mark _)]
  simp only [↓reduceIte]
  rw [result_bind_ok hname]
  rfl

private theorem back_ternary {condition yes no : Expr} (hf : (Expr.ternary condition yes no).Fits)
    (hc : Back g condition) (hy : Deep g yes) (hn : Deep g no) : Back g (.ternary condition yes no) := by
  refine .of_level hf (fun td t ts hs => ?_) fun h => absurd h (by simp [IsLoop, Expr.level])
  have hcondition :=
    hc.reads 1 hf.2.2.2 td Symbol.qmark.mark (yes.tokens ++ Symbol.colon.mark :: (no.tokens ++ t :: ts))
    (stops_of_continuation? rfl (by omega))
  have hcondition : (assignment g).result _ = _ := hcondition
  have hyes := hy.expression td Symbol.colon.mark (no.tokens ++ t :: ts) (stops_mark rfl 0)
  have hno := hn.expression td t ts hs
  show (expression g).result _ = _
  simp only [Expr.tokens, List.append_assoc, List.cons_append]
  unfold expression
  rw [result_bind_ok hcondition, result_bind_ok (result_accept_mark _)]
  simp only [↓reduceIte]
  rw [result_bind_ok hyes, result_bind_ok (result_expect_mark _), result_bind_ok hno]
  rfl

/-- An operator that takes a value is read between the target and the value. -/
private theorem result_assignment {target value : Expr} {op : AssignOp} {pos : Pos}
    (hop : assignOp? (op.symbol.token pos).kind = some op) (hone : op.level = 1) (ht : Back g target)
    (htarget : 3 ≤ target.level) (hlevel : 1 ≤ value.level) (hd : Deep g value) (td : Names) (t : Token)
    (ts : List Token) (hs : Stops 1 t.kind)
    (he : ∀ fault c, (assignTo target op pos value fault).result c = (.ok e, c)) :
    (Parse.assignment g).result (.ofTokens td (target.tokens ++ op.symbol.token pos :: (value.tokens ++ t :: ts))) =
      (.ok e, .ofTokens td (t :: ts)) := by
  have hcont : (op.symbol.token pos).kind.continuation? = some 1 := by
    cases op with
    | set => rfl
    | add => rfl
    | increment => cases hone
  have hread : (increment g).result _ = _ := ht.reads 2 (by omega) td (op.symbol.token pos) (value.tokens ++ t :: ts)
    (stops_of_continuation? hcont (by omega))
  have hvalue := hd.assignment hlevel td t ts hs
  have hadv := @result_advance_cons td (op.symbol.token pos) (value.tokens ++ t :: ts) nofun
  unfold Parse.assignment
  rw [result_bind_ok hread, result_bind_ok (result_current _), Cursor.current_ofTokens]
  simp only [hop]
  rw [result_bind_ok hadv, result_bind_ok hvalue]
  exact he _ _

/-- An assignment is what `assignTo` makes of its target and its value. -/
private theorem back_assignment {target value : Expr} {op : AssignOp} {pos : Pos} (hf : e.Fits)
    (hlevel : e.level = op.level)
    (ht : Back g target) (htarget : 3 ≤ target.level) (hv : op.Takes value) (hd : op ≠ .increment → Deep g value)
    (htokens : e.tokens = target.tokens ++ op.tokens pos value.tokens)
    (he : ∀ fault c, (assignTo target op pos value fault).result c = (.ok e, c)) : Back g e := by
  have hbounds := op.level_bounds
  refine .of_level hf ?_ fun h => absurd h (by simp only [hlevel, IsLoop]; omega)
  rw [hlevel]
  intro td t ts hs
  rw [htokens, List.append_assoc]
  cases op with
  | set => exact result_assignment rfl rfl ht htarget hv (hd nofun) td t ts hs he
  | add => exact result_assignment rfl rfl ht htarget hv (hd nofun) td t ts hs he
  | increment =>
    obtain rfl : value = .literal (.number 1) := hv
    have hread := ht.reads 3 htarget td (Symbol.incr.token pos) (t :: ts) (stops_of_continuation? rfl (by omega))
    have hread : (disjunction g).result _ = _ := hread
    have hincr : (accept (.symbol .incr)).result (.ofTokens td (Symbol.incr.token pos :: t :: ts)) = (.ok true, _) :=
      result_accept_cons rfl nofun
    show (Parse.increment g).result (.ofTokens td (target.tokens ++ Symbol.incr.token pos :: t :: ts)) = _
    unfold Parse.increment
    rw [result_bind_ok hread, result_bind_ok (result_current _), result_bind_ok hincr]
    simp only [↓reduceIte]
    exact he _ _

/-- The tokens of an expression of a list are some of the tokens of the list. -/
private theorem length_le_tokensTail {args : List Expr} (h : e ∈ args) :
    e.tokens.length ≤ (Expr.tokensTail args).length := by
  induction args with
  | nil => cases h
  | cons e' args ih =>
    simp only [Expr.tokensTail, List.length_cons, List.length_append]
    rcases List.mem_cons.1 h with rfl | h
    · omega
    · have := ih h
      omega

theorem length_le_tokensList {args : List Expr} (h : e ∈ args) : e.tokens.length ≤ (Expr.tokensList args).length := by
  cases args with
  | nil => cases h
  | cons e' args =>
    simp only [Expr.tokensList, List.length_append]
    rcases List.mem_cons.1 h with rfl | h
    · omega
    · have := length_le_tokensTail h
      omega

theorem length_lt_assign (op : AssignOp) (pos : Pos) (ts : List Token) (h : op ≠ .increment) :
    ts.length < (op.tokens pos ts).length := by
  cases op with
  | set => exact Nat.lt_succ_self _
  | add => exact Nat.lt_succ_self _
  | increment => exact absurd rfl h

private theorem AssignOp.tokens_pos (op : AssignOp) (pos : Pos) (ts : List Token) :
    0 < (op.tokens pos ts).length := by
  cases op <;> exact Nat.succ_pos _

/-- An expression is read back if its parts are. -/
private theorem back_of_parts (hf : e.Fits)
    (hb : ∀ e' : Expr, e'.tokens.length < e.tokens.length → e'.Fits → Back g e')
    (hd : ∀ e' : Expr, e'.tokens.length < e.tokens.length → e'.Fits → Deep g e') : Back g e := by
  cases e with
  | literal value => exact back_literal value
  | «variable» ref => exact (back_reference hf).1
  | selfRef ref => exact (back_reference hf).2.1
  | superRef ref => exact (back_reference hf).2.2
  | grouping inner =>
    simp only [Expr.tokens, List.length_cons, List.length_append] at hd
    exact back_grouping hf (hd inner (by omega) hf)
  | unary op pos operand =>
    simp only [Expr.tokens, List.length_cons] at hd
    exact back_unary hf (hd operand (by omega) hf.1)
  | binary left op pos right =>
    simp only [Expr.tokens, List.length_cons, List.length_append] at hb
    exact back_binary hf (hb left (by omega) hf.1) (hb right (by omega) hf.2.1)
  | logical left op right =>
    simp only [Expr.tokens, List.length_cons, List.length_append] at hb
    exact back_logical hf (hb left (by omega) hf.1) (hb right (by omega) hf.2.1)
  | ternary condition yes no =>
    simp only [Expr.tokens, List.length_cons, List.length_append] at hb hd
    exact back_ternary hf (hb condition (by omega) hf.1) (hd yes (by omega) hf.2.1) (hd no (by omega) hf.2.2.1)
  | array items =>
    simp only [Expr.tokens, List.length_cons, List.length_append] at hd
    refine back_array hf fun e he => hd e ?_ (Expr.fitsList_iff.1 hf e he)
    have := length_le_tokensList he
    omega
  | index object place =>
    simp only [Expr.tokens, List.length_cons, List.length_append] at hb hd
    exact back_index hf (hb object (by omega) hf.1) (hd place (by omega) hf.2.1)
  | get object name =>
    simp only [Expr.tokens, List.length_cons, List.length_append] at hb
    exact back_get hf (hb object (by omega) hf.1)
  | call callee args =>
    simp only [Expr.tokens, List.length_cons, List.length_append] at hb hd
    refine back_call hf (hb callee (by omega) hf.1) fun e he => hd e ?_ (Expr.fitsList_iff.1 hf.2.2 e he)
    have := length_le_tokensList he
    omega
  | assign target op pos value =>
    have hlt := length_lt_assign op pos value.tokens
    simp only [Expr.tokens, List.length_cons] at hd
    exact back_assignment hf rfl (back_reference hf.1).1 (by simp [Expr.level]) hf.2.2
      (fun hop => hd value (by have := hlt hop; omega) hf.2.1) rfl fun _ _ => rfl
  | set object name op pos value =>
    have hlt := length_lt_assign op pos value.tokens
    have hpos := AssignOp.tokens_pos op pos value.tokens
    simp only [Expr.tokens, List.length_cons, List.length_append] at hb hd
    have hget : Back g (.get object name) := hb _ (by simp [Expr.tokens]; omega) ⟨hf.1, hf.2.1⟩
    exact back_assignment hf rfl hget (by simp [Expr.level]) hf.2.2.2
      (fun hop => hd value (by have := hlt hop; omega) hf.2.2.1) (by simp [Expr.tokens]) fun _ _ => rfl
  | setIndex object place op pos value =>
    have hlt := length_lt_assign op pos value.tokens
    have hpos := AssignOp.tokens_pos op pos value.tokens
    simp only [Expr.tokens, List.length_cons, List.length_append] at hb hd
    have hindex : Back g (.index object place) := hb _ (by simp [Expr.tokens]; omega) ⟨hf.1, hf.2.1, hf.2.2.1⟩
    exact back_assignment hf rfl hindex (by simp [Expr.level]) hf.2.2.2.2
      (fun hop => hd value (by have := hlt hop; omega) hf.2.2.2.1) (by simp [Expr.tokens]) fun _ _ => rfl
  | block returns params body => exact hf.elim

end Constructors

theorem tokens_pos {e : Expr} (hf : e.Fits) : 0 < e.tokens.length := by
  obtain ⟨t, ts, ht, -⟩ := head_of_fits e hf
  rw [ht]
  exact Nat.succ_pos _

private theorem back_of_fits :
    ∀ (k : Nat) (e : Expr), e.tokens.length ≤ k → e.Fits → ∀ m, k ≤ m + 1 → Back (grammar m) e := by
  intro k
  induction k with
  | zero =>
    intro e hk hf
    exact absurd hk (Nat.not_le.2 (tokens_pos hf))
  | succ k ih =>
    intro e hk hf m hm
    refine back_of_parts hf (fun e' hlt hf' => ih e' (by omega) hf' m (by omega)) fun e' hlt hf' => ?_
    have hpos := tokens_pos hf'
    -- a part in brackets has a token less to be nested in
    obtain ⟨m, rfl⟩ : ∃ m', m = m' + 1 := ⟨m - 1, by omega⟩
    have hback := ih e' (by omega) hf' m (by omega)
    exact ⟨hback.reads 0 (Nat.zero_le _), hback.reads 1, hback.reads 10⟩

end Parse

/-- The parser gets an expression back from its tokens and stops before the next one. -/
theorem expression_tokens {e : Expr} (hf : e.Fits) {n : Nat} (hn : e.tokens.length ≤ n) (td : Names) {t : Token}
    (ht : t.kind.continuation? = none) (ts : List Token) :
    (grammar n).expression.result (.ofTokens td (e.tokens ++ t :: ts)) = (.ok e, .ofTokens td (t :: ts)) := by
  have hpos := Parse.tokens_pos hf
  obtain ⟨m, rfl⟩ : ∃ m, n = m + 1 := ⟨n - 1, by omega⟩
  exact (Parse.back_of_fits (m + 1) e hn hf m (Nat.le_refl _)).reads 0 (Nat.zero_le _) td t ts
    (Parse.stops_of_none ht 0)

end ObjScript
