import Mathlib.Data.List.Forall2
import ObjScript.Proofs.Parser.Yield

/-!
# Expressions and their tokens

The parser for expressions and `Expr.tokens` are inverse to each other (`expression_inverse_to_tokens`).  One
direction is `expression_tokens`.  For the other one the rules of the grammar are gone through with `Yields`:
an expression has a tree that fits and whose tokens are, as far as a tree keeps them, the ones it was read
from (`Spelled`).

Message sends and block literals have no tokens of their own in a tree.  They are left out by a property of
the tokens (`Plain`), which the tokens of every tree have (`plain_tokens`).
-/

namespace ObjScript

open Parse

/-! ### Plain tokens -/

/-- Whether an operand goes before what follows the tokens. -/
def endsIn (afterOperand : Bool) : List Token → Bool
  | [] => afterOperand
  | t :: rest => endsIn t.kind.endsOperand rest

private theorem endsIn_append (b : Bool) (us vs : List Token) : endsIn b (us ++ vs) = endsIn (endsIn b us) vs := by
  induction us generalizing b with
  | nil => rfl
  | cons t us ih => exact ih _

private theorem plain_append {b : Bool} {us vs : List Token} :
    Plain b (us ++ vs) ↔ Plain b us ∧ Plain (endsIn b us) vs := by
  induction us generalizing b with
  | nil => simp [Plain, endsIn]
  | cons t us ih => simp [Plain, endsIn, ih, and_assoc]

/-- Behind a token that ends no operand everything begins anew. -/
private theorem plain_after {b : Bool} {us vs : List Token} {t : Token} (h : Plain b (us ++ t :: vs))
    (ht : t.kind.endsOperand = false) : Plain b us ∧ Plain false vs := by
  obtain ⟨hus, -, -, hvs⟩ := plain_append.1 h
  rw [ht] at hvs
  exact ⟨hus, hvs⟩

private theorem Token.sense_kind (t : Token) : t.sense.1 = if t.kind = .classIdent then .ident else t.kind := by
  unfold sense
  split <;> simp_all

private theorem Token.Alike.kind {t u : Token} (h : t.Alike u) :
    (∀ s, t.kind = .symbol s ↔ u.kind = .symbol s) ∧ t.kind.endsOperand = u.kind.endsOperand := by
  have hs := congrArg Prod.fst h.sense
  rw [sense_kind, sense_kind] at hs
  split at hs <;> split at hs
  · rename_i ht hu
    exact ⟨by simp [ht, hu], by simp [ht, hu]⟩
  · rename_i ht hu
    exact ⟨by simp [ht, ← hs], by simp [ht, ← hs, Kind.endsOperand]⟩
  · rename_i ht hu
    exact ⟨by simp [hu, hs], by simp [hu, hs, Kind.endsOperand]⟩
  · exact ⟨by simp [hs], by rw [hs]⟩

/-- Being plain is a matter of what a tree keeps. -/
private theorem plain_of_alike {b : Bool} {us vs : List Token} (h : List.Forall₂ Token.Alike us vs)
    (hv : Plain b vs) :
    Plain b us := by
  induction h generalizing b with
  | nil => trivial
  | cons ht _ ih =>
    obtain ⟨hkind, hends⟩ := ht.kind
    obtain ⟨hcaret, hlsqb, hrest⟩ := hv
    exact ⟨fun h => hcaret ((hkind _).1 h), fun h => hlsqb ((hkind _).1 h), ih (hends ▸ hrest)⟩

/-- An expression from the logical operators on ends with an operand. -/
private theorem endsIn_tokens : (e : Expr) → e.Fits → 3 ≤ e.level → ∀ b, endsIn b e.tokens = true
  | .literal value, _, _, b => by
    rcases value with _ | (_ | _) | x | s
    all_goals rfl
  | .variable _, _, _, _ | .selfRef _, _, _, _ | .superRef _, _, _, _ => rfl
  | .grouping inner, _, _, b => by
    show endsIn _ (inner.tokens ++ [Symbol.rpar.mark]) = true
    rw [endsIn_append]
    rfl
  | .array items, _, _, b => by
    show endsIn _ (Expr.tokensList items ++ [Symbol.rsqb.mark]) = true
    rw [endsIn_append]
    rfl
  | .unary _ _ operand, hf, _, b =>
    endsIn_tokens operand hf.1 (Nat.le_trans (by decide) hf.2) _
  | .binary left op _ right, hf, _, b => by
    have := op.level_bounds
    rw [Expr.tokens, endsIn_append]
    exact endsIn_tokens right hf.2.1 (by have := hf.2.2.2; omega) _
  | .logical left op right, hf, _, b => by
    have := op.level_bounds
    rw [Expr.tokens, endsIn_append]
    exact endsIn_tokens right hf.2.1 (by have := hf.2.2.2; omega) _
  | .index object place, _, _, b => by
    rw [Expr.tokens, endsIn_append, ← List.cons_append, endsIn_append]
    rfl
  | .call callee args, _, _, b => by
    rw [Expr.tokens, endsIn_append, ← List.cons_append, endsIn_append]
    rfl
  | .get object name, _, _, b => by
    rw [Expr.tokens, endsIn_append]
    rfl
  | .assign _ op _ _, _, hl, _ | .set _ _ op _ _, _, hl, _ | .setIndex _ _ op _ _, _, hl, _ => by
    have := op.level_bounds
    exact absurd hl (by simp only [Expr.level]; omega)
  | .ternary _ _ _, _, hl, _ => absurd hl (by simp [Expr.level])

private theorem plain_token {kind : Kind} {text : String} {pos : Pos} {b : Bool} {us : List Token}
    (h : Plain kind.endsOperand us) (hk : kind ≠ .symbol .caret ∧ kind ≠ .symbol .lsqb) :
    Plain b (⟨kind, text, pos⟩ :: us) :=
  ⟨hk.1, fun h => absurd h hk.2, h⟩

private theorem plain_symbol {s : Symbol} {b : Bool} {us : List Token} (pos : Pos)
    (h : Plain (Kind.symbol s).endsOperand us)
    (hs : s ≠ .caret ∧ s ≠ .lsqb) : Plain b (s.token pos :: us) :=
  plain_token h ⟨fun hk => hs.1 (Kind.symbol.inj hk), fun hk => hs.2 (Kind.symbol.inj hk)⟩

private theorem plain_closing {s : Symbol} {b : Bool} {us : List Token} (h : Plain b us)
    (hs : s ≠ .caret ∧ s ≠ .lsqb) :
    Plain b (us ++ [s.mark]) :=
  plain_append.2 ⟨h, plain_symbol _ trivial hs⟩

private theorem plain_assign {op : AssignOp} {pos : Pos} {us : List Token} (h : op ≠ .increment → Plain false us)
    (b : Bool) :
    Plain b (op.tokens pos us) := by
  cases op with
  | set => exact plain_symbol pos (h nofun) (by decide)
  | add => exact plain_symbol pos (h nofun) (by decide)
  | increment => exact plain_symbol pos trivial (by decide)

private theorem plain_tokensTail {args : List Expr} (h : ∀ e ∈ args, ∀ b, Plain b e.tokens) :
    ∀ b, Plain b (Expr.tokensTail args) := by
  induction args with
  | nil => exact fun _ => trivial
  | cons e args ih =>
    obtain ⟨he, hargs⟩ := List.forall_mem_cons.1 h
    exact fun b => plain_symbol .unknown (plain_append.2 ⟨he false, ih hargs _⟩) (by decide)

private theorem plain_tokensList {args : List Expr} (h : ∀ e ∈ args, ∀ b, Plain b e.tokens) (b : Bool) :
    Plain b (Expr.tokensList args) := by
  cases args with
  | nil => trivial
  | cons e args =>
    obtain ⟨he, hargs⟩ := List.forall_mem_cons.1 h
    exact plain_append.2 ⟨he b, plain_tokensTail hargs _⟩

/-- An index behind an operand. -/
private theorem plain_index {object place : Expr} (hf : object.Fits) (hl : 9 ≤ object.level) {b : Bool}
    {us : List Token}
    (ho : Plain b object.tokens) (hp : Plain false place.tokens) (hu : Plain true us) :
    Plain b (object.tokens ++ Symbol.lsqb.mark :: (place.tokens ++ Symbol.rsqb.mark :: us)) := by
  refine plain_append.2 ⟨ho, nofun, fun _ => endsIn_tokens object hf (by omega) b, ?_⟩
  exact plain_append.2 ⟨hp, plain_symbol .unknown hu (by decide)⟩

/-- The tokens of an expression are plain. -/
private theorem plain_tokens (k : Nat) : ∀ e : Expr, e.tokens.length ≤ k → e.Fits → ∀ b, Plain b e.tokens := by
  induction k with
  | zero =>
    intro e hk hf
    exact absurd hk (Nat.not_le.2 (tokens_pos hf))
  | succ k ih =>
    intro e hk hf b
    cases e with
    | literal value =>
      rcases value with _ | (_ | _) | x | s
      all_goals exact plain_token trivial (by simp)
    | «variable» ref | selfRef ref | superRef ref => exact plain_token trivial (by decide)
    | grouping inner =>
      simp only [Expr.tokens, List.length_cons, List.length_append] at hk
      exact plain_symbol .unknown (plain_closing (ih inner (by omega) hf _) (by decide)) (by decide)
    | unary op pos operand =>
      simp only [Expr.tokens, List.length_cons] at hk
      refine plain_symbol pos (ih operand (by omega) hf.1 _) ?_
      cases op <;> decide
    | binary left op pos right =>
      simp only [Expr.tokens, List.length_cons, List.length_append] at hk
      refine plain_append.2 ⟨ih left (by omega) hf.1 b, plain_symbol pos (ih right (by omega) hf.2.1 _) ?_⟩
      cases op <;> decide
    | logical left op right =>
      simp only [Expr.tokens, List.length_cons, List.length_append] at hk
      refine plain_append.2 ⟨ih left (by omega) hf.1 b, plain_symbol _ (ih right (by omega) hf.2.1 _) ?_⟩
      cases op <;> decide
    | ternary condition yes no =>
      simp only [Expr.tokens, List.length_cons, List.length_append] at hk
      refine plain_append.2 ⟨ih condition (by omega) hf.1 b, plain_symbol _ ?_ (by decide)⟩
      exact plain_append.2 ⟨ih yes (by omega) hf.2.1 _, plain_symbol _ (ih no (by omega) hf.2.2.1 _) (by decide)⟩
    | array items =>
      simp only [Expr.tokens, List.length_cons, List.length_append] at hk
      refine plain_symbol .unknown (plain_closing (plain_tokensList (fun e he => ?_) _) (by decide)) (by decide)
      have := length_le_tokensList he
      exact ih e (by omega) (Expr.fitsList_iff.1 hf e he)
    | call callee args =>
      simp only [Expr.tokens, List.length_cons, List.length_append] at hk
      refine plain_append.2 ⟨ih callee (by omega) hf.1 b,
        plain_symbol .unknown (plain_closing (plain_tokensList (fun e he => ?_) _) (by decide)) (by decide)⟩
      have := length_le_tokensList he
      exact ih e (by omega) (Expr.fitsList_iff.1 hf.2.2 e he)
    | get object name =>
      simp only [Expr.tokens, List.length_cons, List.length_append] at hk
      exact plain_append.2 ⟨ih object (by omega) hf.1 b, plain_symbol _ (plain_token trivial (by decide)) (by decide)⟩
    | index object place =>
      simp only [Expr.tokens, List.length_cons, List.length_append] at hk
      exact plain_index hf.1 hf.2.2 (ih object (by omega) hf.1 b) (ih place (by omega) hf.2.1 false) trivial
    | assign target op pos value =>
      have hlt := length_lt_assign op pos value.tokens
      simp only [Expr.tokens, List.length_cons] at hk
      refine plain_token ?_ (by decide)
      exact plain_assign (fun hop => ih value (by have := hlt hop; omega) hf.2.1 false) _
    | set object name op pos value =>
      have hlt := length_lt_assign op pos value.tokens
      simp only [Expr.tokens, List.length_cons, List.length_append] at hk
      refine plain_append.2 ⟨ih object (by omega) hf.1 b, plain_symbol _ (plain_token ?_ (by decide)) (by decide)⟩
      exact plain_assign (fun hop => ih value (by have := hlt hop; omega) hf.2.2.1 false) _
    | setIndex object place op pos value =>
      have hlt := length_lt_assign op pos value.tokens
      simp only [Expr.tokens, List.length_cons, List.length_append] at hk
      refine plain_index hf.1 hf.2.2.1 (ih object (by omega) hf.1 b) (ih place (by omega) hf.2.1 false) ?_
      exact plain_assign (fun hop => ih value (by have := hlt hop; omega) hf.2.2.2.1 false) _
    | block returns params body => exact hf.elim

/-! ### One rule after the other -/

/-- If the tokens are plain, they spell an expression of the level. -/
def Spelled (level : Nat) (us : List Token) (e : Expr) : Prop :=
  Plain false us → e.Fits ∧ level ≤ e.level ∧ List.Forall₂ Token.Alike us e.tokens

private theorem Spelled.looser {l l' : Nat} {us : List Token} {e : Expr} (h : Spelled l us e) (hl : l' ≤ l) :
    Spelled l' us e := by
  intro hp
  obtain ⟨hf, hle, ha⟩ := h hp
  exact ⟨hf, Nat.le_trans hl hle, ha⟩

/-- What is known about the parsers for the parts of a rule. -/
structure Grammar.Spells (k : Nat) (g : Grammar) : Prop where
  reads : g.Reads k g
  expression : Yields k g.expression (Spelled 0)
  assignment : Yields k g.assignment (Spelled 1)
  unary : Yields k g.unary (Spelled 10)

namespace Parse

variable {k : Nat} {g : Grammar}

private theorem alike_mark {t : Token} {s : Symbol} (h : t.kind = .symbol s) : t.Alike s.mark := by
  refine ⟨?_, .inr rfl⟩
  unfold Token.sense
  rw [h]
  rfl

private theorem alike_token {t : Token} {s : Symbol} (h : t.kind = .symbol s) : t.Alike (s.token t.pos) := by
  refine ⟨?_, .inl rfl⟩
  unfold Token.sense
  rw [h]
  rfl

private theorem alike_name {t : Token} (h : t.kind = .ident ∨ t.kind = .classIdent) : t.Alike t.toName.token := by
  refine ⟨?_, .inl rfl⟩
  unfold Token.sense
  rcases h with h | h <;> rw [h] <;> rfl

private theorem alike_literal {t : Token} {value : Literal} (h : t.sense = value.token.sense) :
    t.Alike value.token := by
  refine ⟨h, .inr ?_⟩
  rcases value with _ | (_ | _) | x | s
  all_goals rfl

/-! ### Lists in brackets -/

private theorem tail_spelled {us : List Token} {l : List Expr} (h : Tail (Spelled 0) us l) (b : Bool)
    (hp : Plain b us) :
    Expr.FitsList l ∧ List.Forall₂ Token.Alike us (Expr.tokensTail l) := by
  induction h generalizing b with
  | nil => exact ⟨trivial, .nil⟩
  | cons ht hu _ ih =>
    have hrest := hp.2.2
    rw [ht] at hrest
    obtain ⟨hpu, hps⟩ := plain_append.1 hrest
    obtain ⟨hf, -, ha⟩ := hu hpu
    obtain ⟨hfs, has⟩ := ih _ hps
    exact ⟨⟨hf, hfs⟩, .cons (alike_mark ht) (List.rel_append ha has)⟩

/-- The tokens of expressions with commas between them, and the closing one. -/
def SpelledList (closing : Symbol) (us : List Token) (l : List Expr) : Prop :=
  ∃ v t, us = v ++ [t] ∧ t.kind = .symbol closing ∧
    (Plain false v → Expr.FitsList l ∧ List.Forall₂ Token.Alike v (Expr.tokensList l))

private theorem yields_listBefore (hg : g.Spells k) (closing : Symbol) :
    Yields k (listBefore g closing) fun us l =>
      Plain false us → Expr.FitsList l ∧ List.Forall₂ Token.Alike us (Expr.tokensList l) := by
  unfold listBefore
  refine .bind (yields_check _) fun b => ?_
  split
  · refine .pure ?_
    rintro _ rfl -
    exact ⟨trivial, .nil⟩
  · refine (yields_commaSeparated hg.expression).weaken ?_
    rintro us l ⟨u, w, e, rest, rfl, rfl, hu, hw⟩ _ rfl hp
    rw [List.nil_append] at hp ⊢
    obtain ⟨hpu, hpw⟩ := plain_append.1 hp
    obtain ⟨hf, -, ha⟩ := hu hpu
    obtain ⟨hfs, has⟩ := tail_spelled hw _ hpw
    exact ⟨⟨hf, hfs⟩, List.rel_append ha has⟩

private theorem yields_arguments (hg : g.Spells k) (closing : Symbol) :
    Yields k (arguments g closing) (SpelledList closing) := by
  rw [arguments_eq]
  refine .bind (yields_listBefore hg closing) fun l => .bind (yields_expect nofun) fun t => .pure ?_
  rintro v ⟨rfl, ht⟩ u hu
  exact ⟨u, t, by simp, ht, hu⟩

/-! ### Literals, names and brackets -/

private theorem spelled_primary {t : Token} {e : Expr} (hf : e.Fits) (hl : e.level = 12) {u : Token}
    (hu : e.tokens = [u])
    (ha : t.Alike u) : Spelled 12 [t] e := by
  intro _
  rw [hu]
  exact ⟨hf, Nat.le_of_eq hl.symm, .cons ha .nil⟩

private theorem yields_primary (hg : g.Spells k) : Yields (k + 1) (primary g) (Spelled 12) := by
  unfold primary
  refine .peek fun c hc hk => ?_
  have kind_ne {kind : Kind} (h : c.current.kind = kind) (hne : kind ≠ .eof) : c.current.kind ≠ .eof := h ▸ hne
  split
  case h_1 hkind =>
    refine .advance hc hk (kind_ne hkind (by decide)) ?_
    split
    · rename_i x hx
      refine .pure (spelled_primary trivial rfl rfl (alike_literal ?_))
      unfold Token.sense
      rw [hkind]
      simp [Literal.token, Number.read?_spelling, hx]
    · intro c _ _ a c' ha
      cases ha
  case h_3 hkind =>
    refine .advance hc hk (kind_ne hkind (by decide)) (.bind hg.expression fun e => ?_)
    refine .bind (yields_expect (by decide)) fun t => .pure ?_
    rintro v ⟨rfl, ht⟩ u hu hp
    have hplain := hp.2.2
    rw [hkind] at hplain
    rw [List.append_nil] at hplain
    obtain ⟨hf, -, ha⟩ := hu (plain_append.1 hplain).1
    refine ⟨hf, Nat.le_refl _, .cons (alike_mark hkind) ?_⟩
    rw [List.append_nil]
    exact List.rel_append ha (.cons (alike_mark ht) .nil)
  case h_4 hkind =>
    refine .advance hc hk (kind_ne hkind (by decide)) (.bind (yields_arguments hg .rsqb) fun l => .pure ?_)
    rintro us ⟨v, t, rfl, ht, h⟩ hp
    have hplain := hp.2.2
    rw [hkind] at hplain
    rw [List.append_nil] at hplain
    obtain ⟨hf, ha⟩ := h (plain_append.1 hplain).1
    refine ⟨hf, Nat.le_refl _, .cons (alike_mark hkind) ?_⟩
    rw [List.append_nil]
    exact List.rel_append ha (.cons (alike_mark ht) .nil)
  case h_8 hkind =>
    exact .advance hc hk (kind_ne hkind (by decide)) (.pure (spelled_primary rfl rfl rfl (alike_name (.inr hkind))))
  case h_9 hkind =>
    exact .advance hc hk (kind_ne hkind (by decide)) (.pure (spelled_primary rfl rfl rfl (alike_name (.inl hkind))))
  case h_10 hkind | h_11 hkind =>
    refine .advance hc hk (kind_ne hkind (by decide)) (.pure (spelled_primary rfl rfl rfl ⟨?_, .inl rfl⟩))
    unfold Token.sense
    rw [hkind]
    rfl
  case h_12 =>
    have hfail {fault : SyntaxFault} : Yields (k + 1) (fail fault) fun _ _ => False := yields_fail fault
    exact Yields.bind hfail (fun _ => .pure fun u hu => hu.elim) c hc hk
  -- the other tokens are literals
  all_goals
    rename_i hkind
    refine .advance hc hk (kind_ne hkind (by decide)) (.pure (spelled_primary trivial rfl rfl (alike_literal ?_)))
    unfold Token.sense
    rw [hkind]
    rfl

/-! ### Calls, members and indices -/

private theorem yields_messageSend (hg : g.Spells k) : Yields (k + 1) (messageSend g) (Spelled 12) := by
  intro c hc hk
  by_cases h : c.current.kind = .symbol .lsqb
  · -- a message begins with a bracket that no operand goes before
    refine (reads_messageSend hg.reads c hc hk).yields.weaken ?_
    rintro u e ⟨v, rfl⟩ hp
    exact absurd (hp.2.1 h) nofun
  · intro e c' he
    unfold messageSend at he
    rw [result_bind_ok (result_accept_of_ne h)] at he
    exact yields_primary hg c hc hk e c' he

private theorem yields_callSuffix? (hg : g.Spells k) (e : Expr) :
    Yields (k + 1) (callSuffix? g e) (Grown (Spelled 11) e) := by
  unfold callSuffix?
  refine .accept nofun ?_ (.accept nofun ?_ (.pure fun _ _ => rfl))
  · refine .bind (yields_arguments hg .rpar) fun args => .pure ?_
    rintro us ⟨v, t, rfl, ht, h⟩ s hs u hu hp
    rw [List.append_nil] at hp ⊢
    obtain ⟨hpu, hpv⟩ := plain_after hp (by rw [hs]; rfl)
    obtain ⟨hf, hl, ha⟩ := hu hpu
    obtain ⟨hfs, has⟩ := h (plain_append.1 hpv).1
    refine ⟨⟨hf, hl, hfs⟩, Nat.le_refl _, List.rel_append ha (.cons (alike_mark hs) ?_)⟩
    exact List.rel_append has (.cons (alike_mark ht) .nil)
  · refine .bind (yields_expect nofun) fun name => .pure ?_
    rintro v ⟨rfl, hname⟩ s hs u hu hp
    obtain ⟨hpu, -⟩ := plain_after hp (by rw [hs]; rfl)
    obtain ⟨hf, hl, ha⟩ := hu hpu
    exact ⟨⟨hf, hl⟩, Nat.le_refl _, List.rel_append ha (.cons (alike_mark hs) (.cons (alike_name (.inl hname)) .nil))⟩

private theorem yields_call (hg : g.Spells k) : Yields (k + 1) (call g) (Spelled 11) :=
  yields_extend ((yields_messageSend hg).weaken fun _ _ h => h.looser (by omega)) fun e => yields_callSuffix? hg e

private theorem yields_blockLiteral (hg : g.Spells k) : Yields (k + 1) (blockLiteral g) (Spelled 11) := by
  intro c hc hk
  by_cases h : c.current.kind = .symbol .caret
  · refine (reads_blockLiteral hg.reads c hc hk).yields.weaken ?_
    rintro u e ⟨v, rfl⟩ hp
    exact absurd h hp.1
  · intro e c' he
    unfold blockLiteral at he
    rw [result_bind_ok (result_accept_of_ne h)] at he
    exact yields_call hg c hc hk e c' he

theorem unaryOp?_eq_some {kind : Kind} {op : UnaryOp} (h : unaryOp? kind = some op) : kind = .symbol op.symbol := by
  unfold unaryOp? at h
  split at h <;> cases h <;> rfl

private theorem yields_unary (hg : g.Spells k) : Yields (k + 1) (unary g) (Spelled 10) := by
  unfold unary
  refine .peek fun c hc hk => ?_
  split
  · rename_i op hop
    have hkind := unaryOp?_eq_some hop
    refine .advance hc hk (by rw [hkind]; nofun) (.bind hg.unary fun e => .pure ?_)
    intro u hu hp
    rw [List.append_nil] at hp ⊢
    have hplain := hp.2.2
    have hends : c.current.kind.endsOperand = false := by rw [hkind]; cases op <;> rfl
    rw [hends] at hplain
    obtain ⟨hf, hl, ha⟩ := hu hplain
    exact ⟨⟨hf, hl⟩, Nat.le_refl _, .cons (alike_token hkind) ha⟩
  · exact ((yields_blockLiteral hg).weaken fun _ _ h => h.looser (by omega)) c hc hk

private theorem yields_index (hg : g.Spells k) : Yields (k + 1) (index g) (Spelled 9) := by
  refine yields_extend ((yields_unary hg).weaken fun _ _ h => h.looser (by omega)) fun e => ?_
  unfold indexSuffix?
  refine .accept nofun (.bind hg.expression fun place => ?_) (.pure fun _ _ => rfl)
  refine .bind (yields_expect nofun) fun t => .pure ?_
  rintro v ⟨rfl, ht⟩ w hw s hs u hu hp
  rw [List.append_nil] at hp ⊢
  obtain ⟨hpu, hpw⟩ := plain_after hp (by rw [hs]; rfl)
  obtain ⟨hf, hl, ha⟩ := hu hpu
  obtain ⟨hfw, -, haw⟩ := hw (plain_append.1 hpw).1
  refine ⟨⟨hf, hfw, hl⟩, Nat.le_refl _, List.rel_append ha (.cons (alike_mark hs) ?_)⟩
  exact List.rel_append haw (.cons (alike_mark ht) .nil)

/-! ### Operators between two operands -/

private theorem yields_binaryLevel {operand : Parse Expr} {op? : Kind → Option BinaryOp} {level : Nat}
    (h : Yields (k + 1) operand (Spelled (level + 1)))
    (hop : ∀ kind op, op? kind = some op → kind = .symbol op.symbol ∧ op.level = level) :
    Yields (k + 1) (binaryLevel operand op?) (Spelled level) := by
  refine yields_extend (h.weaken fun _ _ h => h.looser (by omega)) fun e => ?_
  unfold binarySuffix?
  refine .peek fun c hc hk => ?_
  split
  · rename_i op hsome
    obtain ⟨hkind, hlevel⟩ := hop _ op hsome
    refine .advance hc hk (by rw [hkind]; nofun) (.bind (h.mono (Nat.le_succ k)) fun right => .pure ?_)
    intro v hv u hu hp
    rw [List.append_nil] at hp ⊢
    obtain ⟨hpu, hpv⟩ := plain_after hp (by rw [hkind]; cases op <;> rfl)
    obtain ⟨hf, hl, ha⟩ := hu hpu
    obtain ⟨hfv, hlv, hav⟩ := hv hpv
    refine ⟨⟨hf, hfv, by omega, by omega⟩, Nat.le_of_eq hlevel.symm, ?_⟩
    exact List.rel_append ha (.cons (alike_token hkind) hav)
  · exact Yields.pure (fun _ _ => rfl) c hc hk

private theorem yields_logicalLevel {operand : Parse Expr} {op : LogicOp}
    (h : Yields (k + 1) operand (Spelled (op.level + 1))) :
    Yields (k + 1) (logicalLevel operand op) (Spelled op.level) := by
  refine yields_extend (h.weaken fun _ _ h => h.looser (by omega)) fun e => ?_
  unfold logicalSuffix?
  refine .accept nofun (.bind (h.mono (Nat.le_succ k)) fun right => .pure ?_) (.pure fun _ _ => rfl)
  intro v hv s hs u hu hp
  rw [List.append_nil] at hp ⊢
  obtain ⟨hpu, hpv⟩ := plain_after hp (by rw [hs]; cases op <;> rfl)
  obtain ⟨hf, hl, ha⟩ := hu hpu
  obtain ⟨hfv, hlv, hav⟩ := hv hpv
  exact ⟨⟨hf, hfv, hl, by omega⟩, Nat.le_refl _, List.rel_append ha (.cons (alike_mark hs) hav)⟩

private theorem yields_disjunction (hg : g.Spells k) : Yields (k + 1) (disjunction g) (Spelled 3) := by
  have factor : Yields (k + 1) (factor g) (Spelled 8) := by
    refine yields_binaryLevel (yields_index hg) fun kind op h => ?_
    unfold productOp? at h
    split at h <;> cases h <;> exact ⟨rfl, rfl⟩
  have term : Yields (k + 1) (term g) (Spelled 7) := by
    refine yields_binaryLevel factor fun kind op h => ?_
    unfold sumOp? at h
    split at h <;> cases h <;> exact ⟨rfl, rfl⟩
  have comparison : Yields (k + 1) (comparison g) (Spelled 6) := by
    refine yields_binaryLevel term fun kind op h => ?_
    unfold comparisonOp? at h
    split at h <;> cases h <;> exact ⟨rfl, rfl⟩
  have equality : Yields (k + 1) (equality g) (Spelled 5) := by
    refine yields_binaryLevel comparison fun kind op h => ?_
    unfold equalityOp? at h
    split at h <;> cases h <;> exact ⟨rfl, rfl⟩
  have conjunction : Yields (k + 1) (conjunction g) (Spelled 4) := @yields_logicalLevel _ _ .and equality
  exact @yields_logicalLevel _ _ .or conjunction

/-! ### Assignments -/

/-- The assignment to what has been read as an expression. -/
inductive Assigned (op : AssignOp) (pos : Pos) (value : Expr) : Expr → Expr → Prop where
  | variable (ref : Ref) : Assigned op pos value (.variable ref) (.assign ref op pos value)
  | member (object : Expr) (name : Name) :
      Assigned op pos value (.get object name) (.set object name op pos value)
  | element (object place : Expr) :
      Assigned op pos value (.index object place) (.setIndex object place op pos value)

private theorem yields_assignTo (target : Expr) (op : AssignOp) (pos : Pos) (value : Expr) (fault : SyntaxFault) :
    Yields k (assignTo target op pos value fault) fun v e => v = [] ∧ Assigned op pos value target e := by
  have hfail : Yields k (fail fault) fun _ _ => False := yields_fail fault
  unfold assignTo
  split
  · exact .pure ⟨rfl, .variable _⟩
  · exact .pure ⟨rfl, .member _ _⟩
  · exact .pure ⟨rfl, .element _ _⟩
  · exact .bind hfail fun _ => .pure fun _ hu => hu.elim

/-- The tokens of an assignment are those of its target, and its operator and value. -/
private theorem Assigned.spells {op : AssignOp} {pos : Pos} {value target e : Expr}
    (h : Assigned op pos value target e)
    (hf : target.Fits) (hv : value.Fits) (ht : op.Takes value) {us vs : List Token}
    (ha : List.Forall₂ Token.Alike us target.tokens)
    (hav : List.Forall₂ Token.Alike vs (op.tokens pos value.tokens)) :
    e.Fits ∧ e.level = op.level ∧ List.Forall₂ Token.Alike (us ++ vs) e.tokens := by
  have happ := List.rel_append ha hav
  cases h with
  | «variable» ref => exact ⟨⟨hf, hv, ht⟩, rfl, happ⟩
  | member object name =>
    refine ⟨⟨hf.1, hf.2, hv, ht⟩, rfl, ?_⟩
    simpa [Expr.tokens] using happ
  | element object place =>
    refine ⟨⟨hf.1, hf.2.1, hf.2.2, hv, ht⟩, rfl, ?_⟩
    simpa [Expr.tokens] using happ

private theorem yields_increment (hg : g.Spells k) : Yields (k + 1) (increment g) (Spelled 2) := by
  unfold increment
  refine .bind (yields_disjunction hg) fun target => .peek fun c hc hk => .accept nofun hc hk (fun hkind => ?_) ?_
  · refine (yields_assignTo target .increment c.current.pos (.literal (.number 1)) .invalidIncrement).weaken ?_
    rintro v e ⟨rfl, he⟩ u hu hp
    obtain ⟨hf, -, ha⟩ := hu (plain_append.1 hp).1
    have hone : (Expr.literal (.number 1)).Fits := trivial
    obtain ⟨hfe, hle, hae⟩ := he.spells hf hone rfl ha (.cons (alike_token hkind) .nil)
    exact ⟨hfe, Nat.le_of_eq hle.symm, hae⟩
  · refine Yields.pure (fun u hu => ?_) c hc hk
    rw [List.append_nil]
    exact hu.looser (by omega)

theorem assignOp?_eq_some {kind : Kind} {op : AssignOp} (h : assignOp? kind = some op) :
    kind = .symbol op.symbol ∧ op.level = 1 ∧ ∀ pos us, op.tokens pos us = op.symbol.token pos :: us := by
  unfold assignOp? at h
  split at h <;> cases h <;> exact ⟨rfl, rfl, fun _ _ => rfl⟩

private theorem yields_assignment (hg : g.Spells k) : Yields (k + 1) (assignment g) (Spelled 1) := by
  unfold assignment
  refine .bind (yields_increment hg) fun target => .peek fun c hc hk => ?_
  split
  · rename_i op hop
    obtain ⟨hkind, hlevel, htokens⟩ := assignOp?_eq_some hop
    refine .advance hc hk (by rw [hkind]; nofun)
      (.bind hg.assignment fun value => (yields_assignTo target op _ value _).weaken ?_)
    rintro _ e ⟨rfl, he⟩ v hv u hu hp
    rw [List.append_nil] at hp ⊢
    obtain ⟨hpu, hpv⟩ := plain_after hp (by rw [hkind]; cases op <;> rfl)
    obtain ⟨hf, -, ha⟩ := hu hpu
    obtain ⟨hfv, hlv, hav⟩ := hv hpv
    have ht : op.Takes value := by
      cases op with
      | set => exact hlv
      | add => exact hlv
      | increment => cases hlevel
    obtain ⟨hfe, hle, hae⟩ := he.spells hf hfv ht ha (by rw [htokens]; exact .cons (alike_token hkind) hav)
    exact ⟨hfe, by omega, hae⟩
  · refine Yields.pure (fun u hu => ?_) c hc hk
    rw [List.append_nil]
    exact hu.looser (by omega)

private theorem yields_expression (hg : g.Spells k) : Yields (k + 1) (expression g) (Spelled 0) := by
  unfold expression
  refine .bind (yields_assignment hg) fun condition => .accept nofun ?_ (.pure ?_)
  · refine .bind hg.expression fun yes => .bind (yields_expect nofun) fun t => .bind hg.expression fun no => .pure ?_
    rintro w hw _ ⟨rfl, ht⟩ v hv s hs u hu hp
    rw [List.append_nil, List.cons_append, List.nil_append] at hp ⊢
    obtain ⟨hpu, hpv⟩ := plain_after hp (by rw [hs]; rfl)
    obtain ⟨hpv, hpw⟩ := plain_after hpv (by rw [ht]; rfl)
    obtain ⟨hf, hl, ha⟩ := hu hpu
    obtain ⟨hfv, -, hav⟩ := hv hpv
    obtain ⟨hfw, -, haw⟩ := hw hpw
    refine ⟨⟨hf, hfv, hfw, hl⟩, Nat.zero_le _, List.rel_append ha (.cons (alike_mark hs) ?_)⟩
    exact List.rel_append hav (.cons (alike_mark ht) haw)
  · intro u hu
    rw [List.append_nil]
    exact hu.looser (Nat.zero_le _)

end Parse

/-- The parsers of the grammar know the tokens that they have read. -/
private theorem grammar_spells (k : Nat) : ∀ m, k ≤ m → (grammar m).Spells k := by
  induction k with
  | zero => exact fun m _ => ⟨grammar_reads 0 m m (Nat.zero_le _) (Nat.zero_le _), .zero, .zero, .zero⟩
  | succ k ih =>
    intro m hm
    obtain ⟨m, rfl⟩ : ∃ m', m = m' + 1 := ⟨m - 1, by omega⟩
    have hg := ih m (by omega)
    exact ⟨grammar_reads (k + 1) (m + 1) (m + 1) hm hm, yields_expression hg, yields_assignment hg, yields_unary hg⟩

/-- The parser for expressions and the tokens of expressions are inverse to each other.  An expression that
fits comes back from its tokens, before any token that cannot go on with it.  An expression that was read
without an error and without message sends and block literals fits, and its tokens are, as far as a tree
keeps them, those that were read. -/
theorem expression_inverse_to_tokens :
    (∀ (e : Expr) (n : Nat) (typedefs : Names) (t : Token) (rest : List Token), e.Fits → e.tokens.length ≤ n →
      t.kind.continuation? = none →
        (grammar n).expression.result (.ofTokens typedefs (e.tokens ++ t :: rest)) =
          (.ok e, .ofTokens typedefs (t :: rest)) ∧ Plain false e.tokens) ∧
    ∀ (c c' : Cursor) (n : Nat) (e : Expr), Ended c.rest → c.rest.length ≤ n →
      (grammar n).expression.result c = (.ok e, c') → c'.error? = none →
        ∃ used, c.rest = used ++ c'.rest ∧
          (Plain false used ↔ e.Fits ∧ List.Forall₂ Token.Alike used e.tokens) := by
  constructor
  · intro e n typedefs t rest hf hn ht
    exact ⟨expression_tokens hf hn typedefs ht rest, plain_tokens _ e (Nat.le_refl _) hf false⟩
  · intro c c' n e hc hk he herr
    obtain ⟨-, h⟩ := (grammar_spells n n (Nat.le_refl _)).expression c hc hk e c' he
    obtain ⟨used, hused, hspelled⟩ := h herr
    refine ⟨used, hused, fun hp => ?_, fun ⟨hf, ha⟩ => ?_⟩
    · obtain ⟨hf, -, ha⟩ := hspelled hp
      exact ⟨hf, ha⟩
    · exact plain_of_alike ha (plain_tokens _ e (Nat.le_refl _) hf false)

/-- Both directions at `x[1] += -y`, followed by the end token. -/
theorem expression_inverse_at_compound_assignment :
    let x : Ref := ⟨⟨"x", ⟨1, 1⟩⟩, none⟩
    let y : Ref := ⟨⟨"y", ⟨1, 10⟩⟩, none⟩
    let e : Expr := .setIndex (.variable x) (.literal (.number 1)) .add ⟨1, 6⟩ (.unary .negate ⟨1, 9⟩ (.variable y))
    let c := Cursor.ofTokens [] (e.tokens ++ [.eof ⟨1, 11⟩])
    let c' := Cursor.ofTokens [] [.eof ⟨1, 11⟩]
    e.Fits ∧ Ended c.rest ∧ (grammar 9).expression.result c = (.ok e, c') ∧ c'.error? = none ∧
      ∃ used, c.rest = used ++ c'.rest ∧
        (Plain false used ↔ e.Fits ∧ List.Forall₂ Token.Alike used e.tokens) := by
  intro x y e c c'
  have hf : e.Fits :=
    ⟨rfl, trivial, by simp [Expr.level], ⟨rfl, by simp [Expr.level]⟩, by simp [AssignOp.Takes, Expr.level]⟩
  have hend : Ended c.rest :=
    .more (by decide) (.more (by decide) (.more (by decide) (.more (by decide) (.more (by decide) (.more (by decide)
      (.more (by decide) (.last rfl)))))))
  have hlen : c.rest.length = 8 := rfl
  have hresult := (expression_inverse_to_tokens.1 e 9 [] (.eof ⟨1, 11⟩) [] hf (by decide) rfl).1
  exact ⟨hf, hend, hresult, rfl, expression_inverse_to_tokens.2 c c' 9 e hend (by omega) hresult rfl⟩

end ObjScript
