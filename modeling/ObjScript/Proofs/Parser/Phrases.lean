import ObjScript.Proofs.Parser.SteadyRules

/-!
# Expressions inside longer texts

A phrase is a token list that a rule reads from its first to its last token without an error.  Inside a longer text it
is read as on its own, as long as the next token delimits it, and the same tree is built (`Phrase.before`,
`Phrase.factor_before`).

A call may be followed by a member.  Then its loop does not stop where it stopped on its own, but it comes past that
place with the same tree (`Phrase.call_before_dot`).
-/

namespace ObjScript

open Parse

/-- The parser of a rule on a token list, with rules nested deep enough for all of it. -/
def parseAs (rule : Grammar → Parse Expr) (typedefs : Names) (tokens : List Token) :
    Except Number.BadNumeral Expr × Cursor :=
  (rule (grammar (tokens.length + 1))).result (.ofTokens typedefs tokens)

/-- Tokens that the parser of a rule reads completely and without an error, with the tree that it builds.  No block
body in them has a typedef statement. -/
structure Phrase (rule : Grammar → Parse Expr) (T : Names) where
  tokens : List Token
  tree : Expr
  reads : ∃ stop T', parseAs rule T (tokens ++ [.eof stop]) = (.ok tree, .ofTokens T' [.eof stop])
  noTypedef : ∀ t ∈ tokens, t.kind ≠ .keyword .typedefWord

/-- What may come after an argument or after the receiver of a message. -/
def Kind.delimits : Kind → Bool
  | .ident | .symbol .comma | .symbol .rpar | .symbol .rsqb => true
  | _ => false

private theorem Kind.continuation?_of_delimits {kind : Kind} (h : kind.delimits = true) :
    kind.continuation? = none := by
  unfold delimits at h
  split at h
  · rfl
  · rfl
  · rfl
  · rfl
  · cases h

private theorem Cursor.fail_ne (c : Cursor) (fault : SyntaxFault) {c' : Cursor} (hc : c'.error? = none) :
    c.fail fault ≠ c' := by
  rintro rfl
  have herr := c.fail_isSome fault
  rw [hc] at herr
  cases herr

private theorem Cursor.current_fail (c : Cursor) (fault : SyntaxFault) : (c.fail fault).current = c.current := by
  unfold current
  rw [fail_rest]

namespace Parse

variable {g : Grammar} {c c' : Cursor} {e : Expr}

/-! ### From a call to an expression -/

/-- A call is an expression of every looser level unless an operator stands before or behind it. -/
theorem levelParser_of_call (hhead : unaryOp? c.current.kind = none ∧ c.current.kind ≠ .symbol .caret)
    (h : (call g).result c = (.ok e, c')) {level : Nat} (hlevel : level ≤ 11) (hs : Stops level c'.current.kind) :
    (levelParser g level).result c = (.ok e, c') := by
  induction hlevel using Nat.decreasingInduction with
  | self => exact h
  | of_succ level hlt ih => exact levelParser_looser hlt (fun _ => hhead) hs (ih (hs.mono (Nat.le_succ level)))

/-- No literal, name or bracket begins with a token of this kind, and no message. -/
def Refused (kind : Kind) : Prop :=
  kind ∈ [.eof, .symbol .rpar, .symbol .bang, .symbol .minus, .symbol .caret]

private theorem Refused.stops {kind : Kind} (h : Refused kind) : Stops 11 kind ∧ kind ≠ .symbol .lsqb := by
  simp only [Refused, List.mem_cons, List.not_mem_nil, or_false] at h
  rcases h with rfl | rfl | rfl | rfl | rfl <;> exact ⟨by simp [Stops, Kind.continuation?], nofun⟩

private theorem result_primary_of_refused (h : Refused c.current.kind) :
    (primary g).result c = (.ok (.literal .nil), c.fail (.expectedExpression c.current.kind)) := by
  simp only [Refused, List.mem_cons, List.not_mem_nil, or_false] at h
  unfold primary
  rw [result_bind_ok (result_current c)]
  rcases h with h | h | h | h | h <;> rw [h] <;> rfl

private theorem result_call_of_refused (h : Refused c.current.kind) :
    (call g).result c = (.ok (.literal .nil), c.fail (.expectedExpression c.current.kind)) := by
  obtain ⟨hstops, hne⟩ := h.stops
  have hsend : (messageSend g).result c = (.ok (.literal .nil), c.fail (.expectedExpression c.current.kind)) := by
    unfold messageSend
    rw [result_bind_ok (result_accept_of_ne hne)]
    exact result_primary_of_refused h
  have hstops : Stops 11 (c.fail (.expectedExpression c.current.kind)).current.kind := by rwa [Cursor.current_fail]
  unfold call
  rw [result_bind_ok hsend]
  exact (Loop.stop (stops_levelStep (g := g) (.inr rfl) hstops _)).extend

private theorem not_refused_of_call (h : (call g).result c = (.ok e, c')) (hc : c'.error? = none) :
    ¬ Refused c.current.kind := by
  intro hkind
  rw [result_call_of_refused hkind] at h
  exact c.fail_ne _ hc (congrArg Prod.snd h)

/-- An expression does not begin with a closing bracket or at the end. -/
private theorem not_closed_of_expression (h : (expression g).result c = (.ok e, c')) (hc : c'.error? = none) :
    c.current.kind ≠ .eof ∧ c.current.kind ≠ .symbol .rpar := by
  have opens : ∀ kind, Refused kind → kind.continuation? = none → unaryOp? kind = none → kind ≠ .symbol .caret →
      c.current.kind ≠ kind := by
    rintro kind hkind hcont hop hne rfl
    have hstops : Stops 0 (c.fail (.expectedExpression c.current.kind)).current.kind := by
      rw [Cursor.current_fail]
      exact stops_of_none hcont 0
    have hexpr : (expression g).result c = _ :=
      levelParser_of_call ⟨hop, hne⟩ (result_call_of_refused hkind) (Nat.zero_le 11) hstops
    rw [hexpr] at h
    exact c.fail_ne _ hc (congrArg Prod.snd h)
  exact ⟨opens .eof (by simp [Refused]) rfl rfl nofun, opens (.symbol .rpar) (by simp [Refused]) rfl rfl nofun⟩

theorem Refused.of_unary {kind : Kind} (h : ¬ Refused kind) : unaryOp? kind = none ∧ kind ≠ .symbol .caret := by
  simp only [Refused, List.mem_cons, List.not_mem_nil, or_false, not_or] at h
  refine ⟨?_, h.2.2.2.2⟩
  unfold unaryOp?
  split
  · exact absurd rfl h.2.2.1
  · exact absurd rfl h.2.2.2.1
  · rfl

/-! ### A call that goes on -/

section Resuming

variable {S : Seam} {T T' : Names} {X : List Token} {k : Nat}

/-- Alone a loop ends at the seam.  If its turns up to there are the same joined, it comes to the same value and goes
on from it. -/
private theorem loop_joined {α : Type} {step : α → Parse (Option α)} {b d : α} (hmoves : ∀ a, Moves .within (step a))
    (hadvances : ∀ a, Advances k (step a)) (hnone : ∀ a c c', (step a).result c = (.ok none, c') → c' = c)
    (hsome : ∀ a b T T' X Y, Inner X → X.length < k → (step a).result (S.alone T X) = (.ok (some b), S.alone T' Y) →
      (step a).result (S.joined T X) = (.ok (some b), S.joined T' Y)) (turns : List Token) :
    ∀ T X a, Inner X → X.length < k → X.length < turns.length →
      (iterate step turns a).result (S.alone T X) = (.ok b, S.alone T' []) →
      Loop step b (S.joined T' []) d c' → Loop step a (S.joined T X) d c' := by
  induction turns with
  | nil => exact fun _ _ _ _ _ hturns => absurd hturns (Nat.not_lt_zero _)
  | cons t turns ih =>
    intro T X a hX hk hturns h hloop
    rw [List.length_cons] at hturns
    unfold iterate at h
    obtain ⟨o, T₁, Y, ho, hY, hrest, -⟩ :=
      exists_of_alone_bind h (hmoves a) (Option.forall.2 ⟨.pure _, moves_iterate hmoves turns⟩)
    cases o with
    | none =>
      obtain ⟨rfl, rfl⟩ := S.alone_inj (hnone a _ _ ho)
      obtain ⟨hab, hcursor⟩ := Prod.mk.inj hrest
      obtain ⟨rfl, rfl⟩ := S.alone_inj hcursor
      obtain rfl := Except.ok.inj hab
      exact hloop
    | some b =>
      have hlength := (hadvances a).length_lt hX hk ho
      refine .turn (hsome a b T T₁ X Y hX hk ho) ?_ ?_
      · simpa [Seam.joined] using hlength
      · exact ih T₁ Y b (hX.of_suffix hY) (by omega) (by omega) hrest hloop

private theorem result_callSuffix? (g : Grammar) (e : Expr) (c : Cursor) :
    (callSuffix? g e).result c =
      if c.current.is (.symbol .lpar) then
        (arguments g .rpar >>= fun args => pure (some (Expr.call e args))).result c.advance
      else if c.current.is (.symbol .dot) then
        (expect .ident >>= fun name => pure (some (Expr.get e name.toName))).result c.advance
      else (.ok none, c) := by
  unfold callSuffix?
  rw [result_bind, result_accept]
  by_cases hlpar : c.current.is (.symbol .lpar) = true
  · rw [if_pos hlpar, if_pos hlpar]
    rfl
  · rw [if_neg hlpar, if_neg hlpar]
    dsimp only
    rw [if_neg nofun, result_bind, result_accept]
    by_cases hdot : c.current.is (.symbol .dot) = true
    · rw [if_pos hdot, if_pos hdot]
      rfl
    · rw [if_neg hdot, if_neg hdot]
      rfl

/-- Where nothing is added to a call nothing is read. -/
private theorem eq_of_result_callSuffix? (h : (callSuffix? g e).result c = (.ok none, c')) : c' = c := by
  rw [result_callSuffix?] at h
  split at h
  · obtain ⟨args, c₁, -, hpure⟩ := exists_of_result_bind h
    cases hpure
  · split at h
    · obtain ⟨name, c₁, -, hpure⟩ := exists_of_result_bind h
      cases hpure
    · exact (congrArg Prod.snd h).symm

/-- What is added to a call alone is added joined, also right before the seam. -/
private theorem callSuffix?_joined (hg : g.Steady S k) (hX : Inner X) (hk : X.length ≤ k) {d : Expr} {Y : List Token}
    (h : (callSuffix? g e).result (S.alone T X) = (.ok (some d), S.alone T' Y)) :
    (callSuffix? g e).result (S.joined T X) = (.ok (some d), S.joined T' Y) := by
  have hcall : Steady S k True (arguments g .rpar >>= fun args => pure (some (Expr.call e args))) :=
    .bind (steady_arguments hg _) fun _ => .pure _
  have hget : Steady S k True (expect .ident >>= fun name => pure (some (Expr.get e name.toName))) :=
    .bind (steady_expect nofun) fun _ => .pure _
  rw [result_callSuffix?] at h ⊢
  cases X with
  | nil =>
    rw [S.alone_nil_current, if_neg (by simp [Token.is, S.eof]), if_neg (by simp [Token.is, S.eof])] at h
    cases h
  | cons t X =>
    rw [S.alone_current, S.alone_advance T hX] at h
    rw [S.joined_current, S.joined_advance T hX]
    split at h
    · next hlpar =>
      rw [if_pos hlpar]
      exact hcall.steady T X hX.tail hk _ T' Y h (.inl trivial)
    · next hlpar =>
      rw [if_neg hlpar]
      split at h
      · next hdot =>
        rw [if_pos hdot]
        exact hget.steady T X hX.tail hk _ T' Y h (.inl trivial)
      · cases h

/-- Joined a call comes past the seam with the tree that it has there alone. -/
private theorem result_call_joined (hg : g.Steady S k) {d : Expr} (hX : Inner X) (hk : X.length ≤ k)
    (h : (call g).result (S.alone T X) = (.ok e, S.alone T' []))
    (hloop : Loop (callSuffix? g) e (S.joined T' []) d c') : (call g).result (S.joined T X) = (.ok d, c') := by
  have hsuffix := steady_callSuffix? hg
  have hsend : Steady S (k + 1) True (messageSend g) := steady_messageSend hg
  obtain ⟨a, T₁, Y, ha, hY, hextend, -⟩ :=
    exists_of_alone_bind h hsend.moves fun a => moves_extend a fun a => (hsuffix a).moves
  have hk' : Y.length < k + 1 := Nat.lt_succ_of_le (Nat.le_trans hY.length_le hk)
  unfold call
  rw [result_bind_ok (hsend.steady T X hX (Nat.lt_succ_of_le hk) a T₁ Y ha (.inl trivial))]
  refine (loop_joined (fun a => (hsuffix a).moves) (advances_callSuffix? hg.moves.forward)
    (fun _ _ _ => eq_of_result_callSuffix?) ?_ _ T₁ Y a (hX.of_suffix hY) hk' (S.turns T₁ Y).1 hextend
    hloop).extend
  exact fun _ _ _ _ _ _ hX hk h => callSuffix?_joined hg hX (Nat.le_of_lt_succ hk) h

end Resuming

/-! ### Rules for expressions -/

/-- What is known of the rules for expressions. -/
structure ForExpressions (rule : Grammar → Parse Expr) : Prop where
  moves : ∀ {W g}, Grammar.Moves W g → Moves W (rule g)
  reads : ∀ {k g g'}, Grammar.Reads k g g' → Reads Any (k + 1) (rule g) (rule g') Expr.AsParsed
  steady : ∀ {S k g}, Grammar.Steady S k g → Steady S (k + 1) S.Ends (rule g)

private theorem forExpressions_call : ForExpressions call :=
  ⟨moves_call, reads_call, steady_call⟩

theorem forExpressions_expression : ForExpressions expression :=
  ⟨moves_expression, reads_expression, steady_expression⟩

end Parse

namespace Phrase

variable {rule : Grammar → Parse Expr} {T : Names} {n : Nat}

/-! ### Phrases on their own -/

/-- Rules that are nested deep enough read a phrase on its own, and know no new type names then. -/
private theorem alone (hrule : ForExpressions rule) (a : Phrase rule T) : ∃ stop, Inner a.tokens ∧
    ∀ n, a.tokens.length ≤ n →
      (rule (grammar n)).result (.ofTokens T (a.tokens ++ [.eof stop])) = (.ok a.tree, .ofTokens T [.eof stop]) := by
  obtain ⟨stop, T', hreads⟩ := a.reads
  have hdepth : (a.tokens ++ [Token.eof stop]).length = a.tokens.length + 1 := List.length_append
  unfold parseAs at hreads
  rw [hdepth] at hreads
  have hinner : Inner a.tokens := by
    obtain ⟨⟨read, hread, hrest⟩, -⟩ := hrule.moves (grammar_moves typedefMoves_within _) (.ofTokens T _)
    rw [hreads] at hrest
    obtain rfl : a.tokens = read := List.append_cancel_right hrest
    exact hread
  have hnames : T' = T := by
    obtain ⟨runs, hruns⟩ := hrule.moves (grammar_moves typedefMoves_introducing _) (.ofTokens T _)
    rw [hreads] at hruns
    exact hruns.typedefs_eq (List.forall_mem_append.2 ⟨a.noTypedef, List.forall_mem_singleton.2 nofun⟩)
  subst hnames
  refine ⟨stop, hinner, fun n hn => ?_⟩
  have hsame := hrule.reads (grammar_reads a.tokens.length _ n (Nat.le_add_right _ 2) hn)
  exact (hsame (.ofTokens T' _) (hinner.ended rfl) (Nat.le_of_eq hdepth)).1.trans hreads

/-- If the rule reads nothing without an error at the end token, then a phrase has a first token. -/
private theorem exists_head (hrule : ForExpressions rule) (a : Phrase rule T) {P : Kind → Prop} (heof : ¬ P .eof)
    (hbegins : ∀ {g c e c'}, (rule g).result c = (.ok e, c') → c'.error? = none → P c.current.kind) :
    ∃ t X, a.tokens = t :: X ∧ P t.kind := by
  obtain ⟨stop, -, halone⟩ := a.alone hrule
  have hhead := hbegins (halone a.tokens.length (Nat.le_refl _)) rfl
  cases htokens : a.tokens with
  | nil =>
    rw [htokens] at hhead
    exact absurd hhead heof
  | cons t X =>
    rw [htokens] at hhead
    exact ⟨t, X, rfl, hhead⟩

theorem call_head (r : Phrase call T) : ∃ t X, r.tokens = t :: X ∧ ¬ Refused t.kind :=
  r.exists_head (P := fun kind => ¬ Refused kind) forExpressions_call (not_not_intro List.mem_cons_self)
    not_refused_of_call

theorem expression_head (a : Phrase expression T) :
    ∃ t X, a.tokens = t :: X ∧ t.kind ≠ .eof ∧ t.kind ≠ .symbol .rpar :=
  a.exists_head (P := fun kind => kind ≠ .eof ∧ kind ≠ .symbol .rpar) forExpressions_expression (fun h => h.1 rfl)
    not_closed_of_expression

/-! ### Phrases in a text -/

/-- The seam between a phrase and the text after it. -/
def seam (stop : Pos) {t : Token} (ts : List Token) (helse : t.kind ≠ .keyword .elseWord) : Seam where
  last := .eof stop
  back := t :: ts
  eof := rfl
  goesOn := List.cons_ne_nil t ts
  notElse := by simpa using helse

/-- A phrase is read up to what delimits it. -/
theorem before (hrule : ForExpressions rule) (a : Phrase rule T) (hn : a.tokens.length ≤ n) {t : Token}
    (ht : t.kind.delimits = true) (ts : List Token) :
    (rule (grammar n)).result (.ofTokens T (a.tokens ++ t :: ts)) = (.ok a.tree, .ofTokens T (t :: ts)) := by
  obtain ⟨stop, hinner, halone⟩ := a.alone hrule
  have hne : ∀ kind : Kind, kind.delimits = false → t.kind ≠ kind := by
    rintro _ hkind rfl
    rw [hkind] at ht
    cases ht
  let S := seam stop ts (hne _ rfl)
  have hg : (grammar n).Steady S a.tokens.length := grammar_steady S (hne _ rfl) _ n hn
  exact (hrule.steady hg).steady T a.tokens hinner (Nat.lt_succ_self _) a.tree T [] (halone n hn)
    (.inl (Kind.continuation?_of_delimits ht))

/-- The receiver of a message, which need not be as tight as a call, is the same tree. -/
theorem factor_before (r : Phrase call T) (hn : r.tokens.length ≤ n) {t : Token} (ht : t.kind.delimits = true)
    (ts : List Token) :
    (factor (grammar n)).result (.ofTokens T (r.tokens ++ t :: ts)) = (.ok r.tree, .ofTokens T (t :: ts)) := by
  obtain ⟨u, X, hu, hhead⟩ := r.call_head
  have hcall := r.before forExpressions_call hn ht ts
  have hstops : Stops 8 t.kind := stops_of_none (Kind.continuation?_of_delimits ht) 8
  rw [hu] at hcall ⊢
  have hops : unaryOp? u.kind = none ∧ u.kind ≠ .symbol .caret := Refused.of_unary hhead
  exact levelParser_of_call (c := .ofTokens T (u :: X ++ t :: ts)) hops hcall (by omega) hstops

/-- A call that is followed by a dot goes on from its own tree. -/
theorem call_before_dot (r : Phrase call T) (hn : r.tokens.length ≤ n) {t : Token} (ht : t.kind = .symbol .dot)
    {ts : List Token} {d : Expr} {c' : Cursor}
    (hloop : Loop (callSuffix? (grammar n)) r.tree (.ofTokens T (t :: ts)) d c') :
    (call (grammar n)).result (.ofTokens T (r.tokens ++ t :: ts)) = (.ok d, c') := by
  obtain ⟨stop, hinner, halone⟩ := r.alone forExpressions_call
  let S := seam stop ts (by rw [ht]; nofun)
  have hg : (grammar n).Steady S r.tokens.length :=
    grammar_steady S (by rw [show S.next = t from rfl, ht]; nofun) _ n hn
  exact result_call_joined hg hinner (Nat.le_refl _) (halone n hn) hloop

end Phrase

end ObjScript
