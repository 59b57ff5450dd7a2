import ObjScript.Proofs.Parser.Rules

/-!
# Parsing ends and accounts for every token

`Reached k c₀ stmts c` says that one statement after the other leads from `c₀` to `c`: before each of them
there is a token left and no error, and it is read in the same way with every nesting from `k` on.  The
parser follows this as long as it can (`parse_run`): it stops at the end token or in the statement that noted
the error, or a number without a value stops it.  So it has not lost a token (`parse_accounts_for_tokens`),
and no bound on its turns or its nesting was what ended it (`parse_finishes`).
-/

namespace ObjScript

open Parse

/-- Statements that are read one after the other, each of them before the end and without an error so far. -/
inductive Reached (k : Nat) (c₀ : Cursor) : List Stmt → Cursor → Prop where
  | nothing : Reached k c₀ [] c₀
  | next {stmts : List Stmt} {s : Stmt} {c c' : Cursor} (h : Reached k c₀ stmts c) (hend : c.atEnd = false)
      (herr : c.error? = none) (hs : ∀ n, k ≤ n → (grammar n).start.result c = (.ok s, c')) :
      Reached k c₀ (stmts ++ [s]) c'

/-- What the statements and the last cursor say about the tokens. -/
structure Accounts (typedefs : Names) (tokens : List Token) (stmts : List Stmt) (c : Cursor) : Prop where
  /-- The statements are those of the token list, however deep the parser may go. -/
  reached : Reached tokens.length (.ofTokens typedefs tokens) stmts c
  /-- Nothing but the end or an error stops the parser. -/
  stopped : c.atEnd = true ∨ c.error?.isSome = true
  /-- All of its loops have ended by themselves, and no part was nested too deep. -/
  finished : c.unfinished = false
  /-- The tokens that are left are the last ones of the list, the end token among them. -/
  suffix : c.rest <:+ tokens
  ended : Ended c.rest
  /-- Without an error only the end token is left. -/
  complete : c.error? = none → (∃ t, c.rest = [t] ∧ t.kind = .eof) ∧ c.remaining = []
  /-- An error has the place of a token that is not behind the cursor, and it was noted in the last
  statement: the ones before were read without it. -/
  failed : ∀ e, c.error? = some e → c.remaining = c.rest ∧
    (∃ before t after, tokens = before ++ t :: after ∧ c.rest <:+ t :: after ∧ e.pos = t.pos) ∧
    ∃ init last c₁, stmts = init ++ [last] ∧ Reached tokens.length (.ofTokens typedefs tokens) init c₁ ∧
      c₁.error? = none

/-- Every number token has a value. -/
def Readable (tokens : List Token) : Prop :=
  ∀ t ∈ tokens, t.kind = .number → (Number.read? t.text).isSome = true

private theorem Readable.not_unreadable {tokens : List Token} (h : Readable tokens) (b : Number.BadNumeral) :
    ¬ Unreadable tokens b := by
  rintro ⟨t, ht, hkind, -, hnone⟩
  have hsome := h t ht hkind
  rw [hnone] at hsome
  cases hsome

/-! ### One statement -/

theorem result_topStatement? (g : Grammar) (c : Cursor) :
    (topStatement? g).result c =
      if c.atEnd || c.error?.isSome then (.ok none, c) else (some <$> g.start).result c := by
  unfold topStatement?
  rw [result_bind_ok (result_atEnd c), result_bind_ok (result_hadError c)]
  split
  · rfl
  · rfl

theorem turns_topStatement? {k : Nat} {g g' : Grammar} (hg : g.Reads k g') :
    Turns k (topStatement? g) (topStatement? g') Stmt.AsParsed := by
  refine .guarded (.bind reads_atEnd fun a _ => .bind reads_hadError fun b _ => ?_) fun c hc => ?_
  · split
    · exact .absent trivial
    · exact .bindMoved hg.start fun s hs => .pure hs
  · rw [result_topStatement?, hc, Bool.or_true, if_pos rfl]

/-- The next statement is read in the same way by all parsers that go deep enough, unless a number stops them;
before the end and an error there is one. -/
private theorem topStatement?_step {k n : Nat} {c : Cursor} (hc : Ended c.rest) (hk : c.rest.length ≤ k)
    (hn : k ≤ n) :
    ((c.atEnd = true ∨ c.error?.isSome = true) ∧ (topStatement? (grammar n)).result c = (.ok none, c)) ∨
    (∃ s c', c.atEnd = false ∧ c.error? = none ∧ (∀ m, k ≤ m → (grammar m).start.result c = (.ok s, c')) ∧
      (topStatement? (grammar n)).result c = (.ok (some s), c') ∧ c.Later c' ∧ c'.left < c.left) ∨
    ∃ b c', (topStatement? (grammar n)).result c = (.error b, c') ∧ c.Stops b c' := by
  have htop := result_topStatement? (grammar n) c
  by_cases hstop : (c.atEnd || c.error?.isSome) = true
  · rw [if_pos hstop] at htop
    exact .inl ⟨Bool.or_eq_true_iff.1 hstop, htop⟩
  right
  rw [if_neg hstop, map_eq_pure_bind] at htop
  simp only [Bool.or_eq_true, not_or, Bool.not_eq_true, Option.isSome_eq_false_iff,
    Option.isNone_iff_eq_none] at hstop
  have hreads := fun m hm => (grammar_reads k n m hn hm).start c hc hk
  rcases (hreads n hn).2 with ⟨s, c', hs, hl, hp, -⟩ | ⟨b, c', hs, hstops⟩
  · rw [result_bind_ok hs] at htop
    exact .inl ⟨s, c', hstop.1, hstop.2, fun m hm => (hreads m hm).1.trans hs, htop, hl,
      hl.left_lt_of_past hstop.2 (hp trivial)⟩
  · rw [result_bind, hs] at htop
    exact .inr ⟨b, c', htop, hstops⟩

/-! ### All statements -/

/-- The loop over the statements follows `Reached` until it stops by itself or a number stops it. -/
private theorem many_topStatement? {k n : Nat} (hn : k ≤ n) (c₀ : Cursor) (turns : List Token) :
    ∀ c stmts, Ended c.rest → c.rest.length ≤ k → c.left ≤ turns.length → Reached k c₀ stmts c →
      (∃ l c', (many (topStatement? (grammar n)) turns).result c = (.ok l, c') ∧ c.Later c' ∧
        Reached k c₀ (stmts ++ l) c' ∧ (c'.atEnd = true ∨ c'.error?.isSome = true)) ∨
      ∃ b c', (many (topStatement? (grammar n)) turns).result c = (.error b, c') ∧ c.Stops b c' := by
  induction turns with
  | nil => exact fun c _ hc _ hturns _ => absurd hturns (Nat.not_le.2 (Cursor.left_pos hc))
  | cons t turns ih =>
    intro c stmts hc hk hturns hreached
    unfold many
    rcases topStatement?_step hc hk hn with ⟨hstop, htop⟩ | ⟨s, c₁, hend, herr, hs, htop, hl, hlt⟩ | ⟨b, c₁, htop, hb⟩
    · rw [result_bind_ok htop]
      exact .inl ⟨[], c, rfl, .refl hc, by rwa [List.append_nil], hstop⟩
    · rw [result_bind_ok htop]
      dsimp only
      rw [List.length_cons] at hturns
      have hk₁ := Nat.le_trans hl.length_le hk
      rcases ih c₁ (stmts ++ [s]) hl.ended hk₁ (by omega) (.next hreached hend herr hs) with
        ⟨l, c', hmany, hl', hreached', hstop⟩ | ⟨b, c', hmany, hb⟩
      · rw [result_bind_ok hmany]
        rw [List.append_assoc] at hreached'
        exact .inl ⟨s :: l, c', rfl, hl.trans hl', hreached', hstop⟩
      · rw [result_bind, hmany]
        exact .inr ⟨b, c', rfl, hl.stops hb⟩
    · rw [result_bind, htop]
      exact .inr ⟨b, c₁, rfl, hb⟩

theorem result_program (c : Cursor) :
    program.result c = (many (topStatement? (grammar (c.rest.length + 1))) (c.current :: c.rest)).result c := by
  unfold program repeated
  rw [result_bind_ok (result_get c), result_bind_ok (result_turns c)]

/-- Parsing follows the statements until it stops by itself or a number stops it. -/
private theorem parse_run (typedefs : Names) {tokens : List Token} (hend : Ended tokens) :
    (∃ stmts c, parse typedefs tokens = (.ok stmts, c) ∧ (Cursor.ofTokens typedefs tokens).Later c ∧
      Reached tokens.length (.ofTokens typedefs tokens) stmts c ∧ (c.atEnd = true ∨ c.error?.isSome = true)) ∨
    ∃ b c, parse typedefs tokens = (.error b, c) ∧ (Cursor.ofTokens typedefs tokens).Stops b c := by
  have hparse : parse typedefs tokens = _ := result_program (.ofTokens typedefs tokens)
  rw [hparse]
  exact many_topStatement? (Nat.le_succ tokens.length) (.ofTokens typedefs tokens) _ (.ofTokens typedefs tokens) []
    hend (Nat.le_refl _) (Cursor.left_le _) .nothing

/-- What is parsed has been reached statement by statement. -/
theorem run_of_parse {typedefs : Names} {tokens : List Token} {stmts : List Stmt} {c : Cursor} (hend : Ended tokens)
    (h : parse typedefs tokens = (.ok stmts, c)) : (Cursor.ofTokens typedefs tokens).Later c ∧
      Reached tokens.length (.ofTokens typedefs tokens) stmts c ∧ (c.atEnd = true ∨ c.error?.isSome = true) := by
  rcases parse_run typedefs hend with ⟨stmts', c', h', hrun⟩ | ⟨b, c', h', -⟩
  · obtain ⟨⟨⟩, rfl⟩ := Prod.mk.inj (h'.symm.trans h)
    exact hrun
  · cases h'.symm.trans h

/-- No bound ends the parser, also where a number stops it. -/
theorem parse_finishes (typedefs : Names) {tokens : List Token} (hend : Ended tokens) :
    (parse typedefs tokens).2.unfinished = false := by
  rcases parse_run typedefs hend with ⟨stmts, c, h, hl, -⟩ | ⟨b, c, h, hb⟩
  · rw [h]
    exact hl.unfinished
  · rw [h]
    exact hb.unfinished

/-- A run that has gone into an error noted it in its last statement. -/
private theorem Reached.last_of_error {k : Nat} {c₀ c : Cursor} {stmts : List Stmt} (h : Reached k c₀ stmts c)
    (h₀ : c₀.error? = none) (hc : c.error?.isSome = true) :
    ∃ init last c₁, stmts = init ++ [last] ∧ Reached k c₀ init c₁ ∧ c₁.error? = none := by
  cases h with
  | nothing => simp [h₀] at hc
  | next h _ herr hs => exact ⟨_, _, _, rfl, h, herr⟩

/-- The end token is the only one that is ever left. -/
theorem rest_of_atEnd {c : Cursor} (hc : Ended c.rest) (h : c.atEnd = true) :
    ∃ t, c.rest = [t] ∧ t.kind = .eof := by
  unfold Cursor.atEnd Token.is Cursor.current at h
  generalize c.rest = ts at *
  cases hc with
  | last ht => exact ⟨_, rfl, ht⟩
  | more ht _ => simp [ht] at h

/-- Parsing ends, with a statement list and a cursor that account for all of the tokens. -/
theorem parse_accounts_for_tokens (typedefs : Names) (tokens : List Token) (hend : Ended tokens)
    (hnum : Readable tokens) :
    ∃ stmts c, parse typedefs tokens = (.ok stmts, c) ∧ Accounts typedefs tokens stmts c := by
  rcases parse_run typedefs hend with ⟨stmts, c, hparse, hl, hreached, hstop⟩ | ⟨b, c, -, hb⟩
  · refine ⟨stmts, c, hparse, hreached, hstop, hl.unfinished, hl.suffix, hl.ended, fun hnone => ?_, fun e he => ?_⟩
    · have hat : c.atEnd = true := hstop.resolve_right (by simp [hnone])
      exact ⟨rest_of_atEnd hl.ended hat, by simp [Cursor.remaining, hnone]⟩
    · have hsome : c.error?.isSome = true := by simp [he]
      refine ⟨by simp [Cursor.remaining, he], ?_, hreached.last_of_error rfl hsome⟩
      rcases hl.error with h | ⟨-, e', t, ts, he', hpos, ⟨before, ht⟩, hrest⟩
      · rw [he] at h
        cases h
      · obtain rfl : e = e' := Option.some.inj (he.symm.trans he')
        exact ⟨before, t, ts, ht.symm, hrest, hpos⟩
  · exact absurd hb.unreadable (hnum.not_unreadable b)

/-- A closing bracket that nothing opened is such an error: it and the end token are left. -/
theorem parse_accounts_for_stray_bracket :
    let tokens : List Token := [⟨.ident, "x", ⟨1, 1⟩⟩, ⟨.symbol .rpar, ")", ⟨1, 3⟩⟩, .eof ⟨1, 4⟩]
    Ended tokens ∧ Readable tokens ∧
      ∃ stmts c, parse [] tokens = (.ok stmts, c) ∧ Accounts [] tokens stmts c ∧ c.error?.isSome = true := by
  intro tokens
  have hend : Ended tokens := .more (by decide) (.more (by decide) (.last rfl))
  have hnum : Readable tokens := by simp [Readable, tokens, Token.eof]
  obtain ⟨stmts, c, hparse, h⟩ := parse_accounts_for_tokens [] tokens hend hnum
  refine ⟨hend, hnum, stmts, c, hparse, h, ?_⟩
  have : (parse [] tokens).2.error?.isSome = true := by decide +kernel
  rwa [hparse] at this

end ObjScript
