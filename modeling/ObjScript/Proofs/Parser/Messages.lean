import ObjScript.Proofs.Parser.Blind
import ObjScript.Proofs.Parser.Compose
import ObjScript.Proofs.Parser.Phrases

/-!
# Messages are calls of members

A message `[r s: a k: b]` is read as the call `r.s(a, b)`.  The two forms go through different rules: the receiver is
a product in one and the beginning of a call in the other, an argument ends at the next keyword in one and at the
comma in the other.  Whatever the receiver and the arguments are, the tree is the same (`bracketed_eq_dotted`).
-/

namespace ObjScript

open Parse

/-- An argument of a message with the keyword before it. -/
structure Keyworded (T : Names) where
  keyword : Token
  isIdent : keyword.kind = .ident
  value : Phrase expression T

/-- The parts of a message: only the first argument has no keyword. -/
structure Message (T : Names) where
  receiver : Phrase call T
  selector : Token
  isIdent : selector.kind = .ident
  args? : Option (Phrase expression T × List (Keyworded T))

variable {T : Names}

/-- The argument and what is written before it in a message. -/
def Keyworded.inMessage (a : Keyworded T) : List Token :=
  a.keyword :: Symbol.colon.mark :: a.value.tokens

/-- The argument and what is written before it in a call. -/
def Keyworded.inCall (a : Keyworded T) : List Token :=
  Symbol.comma.mark :: a.value.tokens

namespace Message

/-- The arguments of the message. -/
def keywordArguments (m : Message T) : List Token :=
  match m.args? with
  | none => []
  | some (first, others) => Symbol.colon.mark :: (first.tokens ++ others.flatMap Keyworded.inMessage)

/-- The arguments of the call. -/
def commaArguments (m : Message T) : List Token :=
  match m.args? with
  | none => []
  | some (first, others) => first.tokens ++ others.flatMap Keyworded.inCall

/-- The message between its brackets. -/
def bracketed (m : Message T) : List Token :=
  Symbol.lsqb.mark :: (m.receiver.tokens ++ m.selector :: (m.keywordArguments ++ [Symbol.rsqb.mark]))

/-- The message as a call of a member of the receiver. -/
def dotted (m : Message T) : List Token :=
  m.receiver.tokens ++ Symbol.dot.mark :: m.selector :: Symbol.lpar.mark :: (m.commaArguments ++ [Symbol.rpar.mark])

/-- What the arguments mean. -/
def values (m : Message T) : List Expr :=
  match m.args? with
  | none => []
  | some (first, others) => first.tree :: others.map fun a => a.value.tree

/-- What both forms mean. -/
def tree (m : Message T) : Expr :=
  .call (.get m.receiver.tree m.selector.toName) m.values

/-- All parts of the message are short enough for rules of this nesting. -/
structure Fits (m : Message T) (n : Nat) : Prop where
  receiver : m.receiver.tokens.length ≤ n
  first : ∀ first others, m.args? = some (first, others) → first.tokens.length ≤ n
  others : ∀ first others, m.args? = some (first, others) → ∀ a ∈ others, a.value.tokens.length ≤ n

private theorem length_le_of_mem (front : Keyworded T → List Token)
    (hfront : ∀ a, a.value.tokens.length ≤ (front a).length)
    {others : List (Keyworded T)} {a : Keyworded T} (ha : a ∈ others) :
    a.value.tokens.length ≤ (others.flatMap front).length :=
  Nat.le_trans (hfront a) (List.sublist_flatten_of_mem (List.mem_map_of_mem ha)).length_le

private theorem fits_bracketed (m : Message T) {n : Nat} (hn : m.bracketed.length ≤ n) : m.Fits n := by
  refine ⟨?_, fun first others h => ?_, fun first others h a ha => ?_⟩
  · simp only [bracketed, List.length_cons, List.length_append] at hn
    omega
  · simp only [bracketed, keywordArguments, h, List.length_cons, List.length_append] at hn
    omega
  · have hle := length_le_of_mem Keyworded.inMessage (fun a => by simp [Keyworded.inMessage]; omega) ha
    simp only [bracketed, keywordArguments, h, List.length_cons, List.length_append] at hn
    omega

private theorem fits_dotted (m : Message T) {n : Nat} (hn : m.dotted.length ≤ n) : m.Fits n := by
  refine ⟨?_, fun first others h => ?_, fun first others h a ha => ?_⟩
  · simp only [dotted, List.length_cons, List.length_append] at hn
    omega
  · simp only [dotted, commaArguments, h, List.length_cons, List.length_append] at hn
    omega
  · have hle := length_le_of_mem Keyworded.inCall (fun a => by simp [Keyworded.inCall]) ha
    simp only [dotted, commaArguments, h, List.length_cons, List.length_append] at hn
    omega

end Message

namespace Parse

variable {n : Nat} {ts : List Token}

/-! ### Arguments up to the token that closes them -/

/-- The next token delimits what stands before it. -/
def Delimited (ts : List Token) : Prop :=
  ∃ t us, ts = t :: us ∧ t.kind.delimits = true

private theorem Delimited.before {rule : Grammar → Parse Expr} (h : Delimited ts) (hrule : ForExpressions rule)
    (a : Phrase rule T) (hn : a.tokens.length ≤ n) :
    (rule (grammar n)).result (.ofTokens T (a.tokens ++ ts)) = (.ok a.tree, .ofTokens T ts) := by
  obtain ⟨t, us, rfl, ht⟩ := h
  exact a.before hrule hn ht us

private theorem Delimited.append (h : Delimited ts) (us : List Token) : Delimited (ts ++ us) := by
  obtain ⟨t, ts, rfl, ht⟩ := h
  exact ⟨t, ts ++ us, rfl, ht⟩

/-- A loop that reads the arguments one after the other, each with what is written before it. -/
private theorem rounds_keyworded (item : Parse (Option Expr)) (front : Keyworded T → List Token)
    (hfront : ∀ a, Delimited (front a)) (hts : Delimited ts)
    (hstop : item.result (.ofTokens T ts) = (.ok none, .ofTokens T ts)) (others : List (Keyworded T))
    (hitem : ∀ a ∈ others, ∀ rest, Delimited rest →
      item.result (.ofTokens T (front a ++ rest)) = (.ok (some a.value.tree), .ofTokens T rest)) :
    Delimited (others.flatMap front ++ ts) ∧
      Rounds item (.ofTokens T (others.flatMap front ++ ts)) (others.map fun a => a.value.tree) (.ofTokens T ts) := by
  induction others with
  | nil => exact ⟨hts, .stop hstop⟩
  | cons a others ih =>
    obtain ⟨ha, hothers⟩ := List.forall_mem_cons.1 hitem
    obtain ⟨hrest, hrounds⟩ := ih hothers
    rw [List.flatMap_cons, List.append_assoc]
    refine ⟨(hfront a).append _, .turn (ha _ hrest) ?_ hrounds⟩
    obtain ⟨t, us, hus, -⟩ := hfront a
    simp only [Cursor.rest_ofTokens, hus, List.length_cons, List.length_append]
    omega

private theorem delimited_mark {s : Symbol} (hs : (Kind.symbol s).delimits = true) (ts : List Token) :
    Delimited (s.mark :: ts) :=
  ⟨_, ts, rfl, hs⟩

private theorem result_messageArgument? (a : Keyworded T) (hn : a.value.tokens.length ≤ n) (hts : Delimited ts) :
    (messageArgument? (grammar (n + 1))).result (.ofTokens T (a.inMessage ++ ts)) =
      (.ok (some a.value.tree), .ofTokens T ts) := by
  have hvalue : (grammar (n + 1)).expression.result (.ofTokens T (a.value.tokens ++ ts)) = _ :=
    hts.before forExpressions_expression a.value hn
  have hgoes : ¬((Cursor.ofTokens T (a.inMessage ++ ts)).current.is (.symbol .rsqb) ||
      (Cursor.ofTokens T (a.inMessage ++ ts)).atEnd ||
      (Cursor.ofTokens T (a.inMessage ++ ts)).error?.isSome) = true := by
    simp [Keyworded.inMessage, Cursor.atEnd, Token.is, Cursor.ofTokens, Cursor.current, a.isIdent]
  unfold messageArgument?
  rw [result_bind_ok (result_check _ _), result_bind_ok (result_atEnd _), result_bind_ok (result_hadError _),
    if_neg hgoes]
  unfold Keyworded.inMessage
  simp only [List.cons_append]
  rw [result_bind_ok (result_expect_cons a.isIdent (by decide)), result_bind_ok (result_expect_mark _),
    result_bind_ok hvalue]
  rfl

/-- The arguments of a message end at the closing bracket. -/
private theorem result_messageArguments (ts : List Token) (others : List (Keyworded T))
    (hn : ∀ a ∈ others, a.value.tokens.length ≤ n) :
    Delimited (others.flatMap Keyworded.inMessage ++ Symbol.rsqb.mark :: ts) ∧
      (repeated (messageArgument? (grammar (n + 1)))).result
          (.ofTokens T (others.flatMap Keyworded.inMessage ++ Symbol.rsqb.mark :: ts)) =
        (.ok (others.map fun a => a.value.tree), .ofTokens T (Symbol.rsqb.mark :: ts)) := by
  have hstop : (messageArgument? (grammar (n + 1))).result (.ofTokens T (Symbol.rsqb.mark :: ts)) =
      (.ok none, .ofTokens T (Symbol.rsqb.mark :: ts)) := by
    unfold messageArgument?
    rw [result_bind_ok (result_check _ _), result_bind_ok (result_atEnd _), result_bind_ok (result_hadError _)]
    rfl
  have hfront : ∀ a : Keyworded T, Delimited a.inMessage := fun a => ⟨a.keyword, _, rfl, by rw [a.isIdent]; rfl⟩
  obtain ⟨hdelimited, hrounds⟩ := rounds_keyworded _ Keyworded.inMessage hfront (delimited_mark rfl ts) hstop others
    fun a ha rest hrest => result_messageArgument? a (hn a ha) hrest
  exact ⟨hdelimited, hrounds.repeated⟩

/-- The arguments of a call end at the closing bracket. -/
private theorem result_callArguments (ts : List Token) (first : Phrase expression T) (others : List (Keyworded T))
    (hfirst : first.tokens.length ≤ n) (hn : ∀ a ∈ others, a.value.tokens.length ≤ n) :
    (arguments (grammar (n + 1)) .rpar).result
        (.ofTokens T (first.tokens ++ (others.flatMap Keyworded.inCall ++ Symbol.rpar.mark :: ts))) =
      (.ok (first.tree :: others.map fun a => a.value.tree), .ofTokens T ts) := by
  have hvalue : ∀ (a : Phrase expression T) rest, a.tokens.length ≤ n → Delimited rest →
      (grammar (n + 1)).expression.result (.ofTokens T (a.tokens ++ rest)) = (.ok a.tree, .ofTokens T rest) :=
    fun a rest hn hrest => hrest.before forExpressions_expression a hn
  have hcomma : (accept (.symbol .comma)).result (.ofTokens T (Symbol.rpar.mark :: ts)) = (.ok false, _) :=
    result_accept_ne nofun
  have hfront : ∀ a : Keyworded T, Delimited a.inCall := fun a => delimited_mark rfl _
  obtain ⟨hrest, hrounds⟩ := rounds_keyworded
    (do if ← accept (.symbol .comma) then return some (← (grammar (n + 1)).expression) else return none)
    Keyworded.inCall hfront (delimited_mark rfl ts) (by rw [result_bind_ok hcomma]; rfl) others
    fun a ha rest hrest => by
      unfold Keyworded.inCall
      rw [List.cons_append, result_bind_ok (result_accept_mark _), if_pos rfl,
        result_bind_ok (hvalue a.value rest (hn a ha) hrest)]
      rfl
  have hothers := hrounds.repeated
  obtain ⟨t, X, htokens, -, ht⟩ := first.expression_head
  have hfirst := hvalue first _ hfirst hrest
  rw [htokens] at hfirst ⊢
  have hopen : (Cursor.ofTokens T (t :: X ++ (others.flatMap Keyworded.inCall ++ Symbol.rpar.mark :: ts))).current.is
      (.symbol .rpar) = false := decide_eq_false ht
  unfold arguments commaSeparated
  rw [result_bind_ok (result_check _ _), hopen, if_neg nofun]
  simp only [bind_assoc]
  rw [result_bind_ok hfirst, result_bind_ok hothers, pure_bind, result_bind_ok (result_expect_mark _)]
  rfl

end Parse

namespace Message

variable {n : Nat} (m : Message T)

private theorem result_selector (ts : List Token) :
    (expect .ident).result (.ofTokens T (m.selector :: ts)) = (.ok m.selector, .ofTokens T ts) :=
  result_expect_cons m.isIdent nofun

/-! ### The message in brackets -/

private theorem result_messageSend (hm : m.Fits n) (ts : List Token) :
    (messageSend (grammar (n + 1))).result (.ofTokens T (m.bracketed ++ ts)) = (.ok m.tree, .ofTokens T ts) := by
  have hreceiver : ∀ rest, (grammar (n + 1)).factor.result (.ofTokens T (m.receiver.tokens ++ m.selector :: rest)) =
      (.ok m.receiver.tree, .ofTokens T (m.selector :: rest)) :=
    fun rest => m.receiver.factor_before hm.receiver (by rw [m.isIdent]; rfl) rest
  unfold messageSend bracketed keywordArguments tree values
  cases hargs : m.args? with
  | none =>
    have hcolon : (accept (.symbol .colon)).result (.ofTokens T (Symbol.rsqb.mark :: ts)) = (.ok false, _) :=
      result_accept_ne nofun
    simp only [List.append_assoc, List.cons_append, List.nil_append]
    rw [result_bind_ok (result_accept_mark _), if_pos rfl, result_bind_ok (hreceiver _),
      result_bind_ok (m.result_selector _), result_bind_ok hcolon, if_neg nofun, pure_bind,
      result_bind_ok (result_expect_mark _)]
    rfl
  | some args =>
    obtain ⟨first, others⟩ := args
    obtain ⟨hrest, hothers⟩ := result_messageArguments ts others (hm.others first others hargs)
    have hfirst : (grammar (n + 1)).expression.result _ = _ :=
      hrest.before forExpressions_expression first (hm.first first others hargs)
    simp only [List.append_assoc, List.cons_append, List.nil_append]
    rw [result_bind_ok (result_accept_mark _), if_pos rfl, result_bind_ok (hreceiver _),
      result_bind_ok (m.result_selector _), result_bind_ok (result_accept_mark _), if_pos rfl, result_bind_ok hfirst,
      result_bind_ok hothers, pure_bind, result_bind_ok (result_expect_mark _)]
    rfl

/-- Before the end token the message is a whole expression. -/
private theorem parseAs_bracketed (stop : Pos) :
    parseAs expression T (m.bracketed ++ [.eof stop]) = (.ok m.tree, .ofTokens T [.eof stop]) := by
  have hdepth : (m.bracketed ++ [Token.eof stop]).length = m.bracketed.length + 1 := List.length_append
  unfold parseAs
  rw [hdepth]
  have hsend := m.result_messageSend (m.fits_bracketed (Nat.le_succ _)) [.eof stop]
  have hend : Loop (callSuffix? (grammar (m.bracketed.length + 1 + 1))) m.tree (.ofTokens T [.eof stop]) m.tree
      (.ofTokens T [.eof stop]) :=
    .stop (stops_levelStep (c := .ofTokens T [.eof stop]) (.inr rfl) (stops_of_none rfl 11) m.tree)
  have hcall : (call (grammar (m.bracketed.length + 1 + 1))).result (.ofTokens T (m.bracketed ++ [.eof stop])) =
      (.ok m.tree, .ofTokens T [.eof stop]) := by
    unfold call
    rw [result_bind_ok hsend]
    exact hend.extend
  exact levelParser_of_call (c := .ofTokens T (m.bracketed ++ [.eof stop])) ⟨rfl, nofun⟩ hcall (Nat.zero_le 11)
    (stops_of_none rfl 0)

/-! ### The call of a member -/

private theorem result_arguments (hm : m.Fits n) (ts : List Token) :
    (arguments (grammar (n + 1)) .rpar).result (.ofTokens T (m.commaArguments ++ Symbol.rpar.mark :: ts)) =
      (.ok m.values, .ofTokens T ts) := by
  unfold commaArguments values
  cases hargs : m.args? with
  | none =>
    have hopen : (Cursor.ofTokens T (Symbol.rpar.mark :: ts)).current.is (.symbol .rpar) = true := rfl
    unfold arguments
    rw [List.nil_append, result_bind_ok (result_check _ _), hopen, if_pos rfl, pure_bind,
      result_bind_ok (result_expect_mark _)]
    rfl
  | some args =>
    obtain ⟨first, others⟩ := args
    dsimp only
    rw [List.append_assoc]
    exact result_callArguments ts first others (hm.first first others hargs) (hm.others first others hargs)

/-- From the receiver the loop of a call goes on past the member and its arguments. -/
private theorem loop_dotted (hm : m.Fits n) (stop : Pos) :
    Loop (callSuffix? (grammar (n + 1))) m.receiver.tree
      (.ofTokens T (Symbol.dot.mark :: m.selector :: Symbol.lpar.mark ::
        (m.commaArguments ++ [Symbol.rpar.mark, .eof stop]))) m.tree (.ofTokens T [.eof stop]) := by
  have hget : ∀ ts, (callSuffix? (grammar (n + 1)) m.receiver.tree).result
      (.ofTokens T (Symbol.dot.mark :: m.selector :: ts)) =
      (.ok (some (.get m.receiver.tree m.selector.toName)), .ofTokens T ts) := by
    intro ts
    have hdot :
        (accept (.symbol .lpar)).result (.ofTokens T (Symbol.dot.mark :: m.selector :: ts)) = (.ok false, _) :=
      result_accept_ne nofun
    unfold callSuffix?
    rw [result_bind_ok hdot, if_neg nofun, result_bind_ok (result_accept_mark _), if_pos rfl,
      result_bind_ok (m.result_selector ts)]
    rfl
  have hcall : (callSuffix? (grammar (n + 1)) (.get m.receiver.tree m.selector.toName)).result
      (.ofTokens T (Symbol.lpar.mark :: (m.commaArguments ++ [Symbol.rpar.mark, .eof stop]))) =
      (.ok (some m.tree), .ofTokens T [.eof stop]) := by
    unfold callSuffix?
    rw [result_bind_ok (result_accept_mark _), if_pos rfl, result_bind_ok (m.result_arguments hm [.eof stop])]
    rfl
  have hend := stops_levelStep (g := grammar (n + 1)) (c := .ofTokens T [.eof stop]) (.inr rfl) (stops_of_none rfl 11)
    m.tree
  refine .turn (hget _) ?_ (.turn hcall ?_ (.stop hend))
  · exact Nat.lt_succ_of_lt (Nat.lt_succ_self _)
  · simp only [Cursor.rest_ofTokens, List.length_cons, List.length_append]
    omega

private theorem parseAs_dotted (stop : Pos) :
    parseAs expression T (m.dotted ++ [.eof stop]) = (.ok m.tree, .ofTokens T [.eof stop]) := by
  have hdepth : (m.dotted ++ [Token.eof stop]).length = m.dotted.length + 1 := List.length_append
  have hfits := m.fits_dotted (Nat.le_succ _)
  have hdotted : m.dotted ++ [.eof stop] = m.receiver.tokens ++ Symbol.dot.mark :: m.selector :: Symbol.lpar.mark ::
      (m.commaArguments ++ [Symbol.rpar.mark, .eof stop]) := by
    simp only [dotted, List.append_assoc, List.cons_append, List.nil_append]
  obtain ⟨t, X, ht, hhead⟩ := m.receiver.call_head
  unfold parseAs
  rw [hdepth, hdotted]
  have hcall := m.receiver.call_before_dot (Nat.le_succ_of_le hfits.receiver) rfl (m.loop_dotted hfits stop)
  rw [ht] at hcall ⊢
  exact levelParser_of_call (c := .ofTokens T (t :: _)) (Refused.of_unary hhead) hcall (Nat.zero_le 11)
    (stops_of_none rfl 0)

end Message

/-- Tokens that differ in their places are read alike. -/
private theorem parseAs_of_unlocated {ts us : List Token} {e : Expr} {p q : Pos}
    (h : ts.map Token.unlocated = us.map Token.unlocated)
    (hus : parseAs expression T (us ++ [.eof q]) = (.ok e, .ofTokens T [.eof q])) :
    ∃ e', parseAs expression T (ts ++ [.eof p]) = (.ok e', .ofTokens T [.eof p]) ∧ e'.unlocated = e.unlocated := by
  have hlength : (us ++ [Token.eof q]).length = (ts ++ [Token.eof p]).length := by
    simpa using (congrArg List.length h).symm
  have hcursor : (Cursor.ofTokens T (ts ++ [.eof p])).unlocated = (Cursor.ofTokens T (us ++ [.eof q])).unlocated := by
    simp only [Cursor.unlocated, Cursor.ofTokens, List.map_append, h]
    rfl
  unfold parseAs at hus ⊢
  rw [hlength] at hus
  generalize (ts ++ [Token.eof p]).length + 1 = n at hus ⊢
  have hmoves := moves_expression (grammar_moves typedefMoves_within n) (.ofTokens T (ts ++ [.eof p]))
  have hblind := blind_expression (grammar_blind n) (.ofTokens T (ts ++ [.eof p]))
  rw [hcursor, blind_expression (grammar_blind n), hus] at hblind
  rcases hts : (expression (grammar n)).result (.ofTokens T (ts ++ [.eof p])) with
    ⟨b | e', rest, error?, T', unfinished⟩
  · rw [hts] at hblind
    cases hblind
  · rw [hts] at hblind hmoves
    obtain ⟨hvalue, hleft⟩ := Prod.mk.inj hblind
    obtain ⟨⟨read, -, hread⟩, -⟩ := hmoves
    obtain ⟨hrest, herror, hnames, hfinished⟩ := Cursor.mk.inj hleft
    have hone : [Token.eof p].length = rest.length := by simpa using congrArg List.length hrest
    obtain ⟨-, rfl⟩ := List.append_inj' hread hone
    obtain rfl : error? = none := by simpa [Cursor.ofTokens] using herror.symm
    obtain rfl : T = T' := hnames
    obtain rfl : false = unfinished := hfinished
    exact ⟨e', hts, (Except.ok.inj hvalue).symm⟩

/-- A message in brackets and the call of the member are the same expression, wherever their tokens stand. -/
theorem bracketed_eq_dotted (m : Message T) {ts us : List Token} (p q : Pos)
    (hts : ts.map Token.unlocated = m.bracketed.map Token.unlocated)
    (hus : us.map Token.unlocated = m.dotted.map Token.unlocated) :
    ∃ e f, parseAs expression T (ts ++ [.eof p]) = (.ok e, .ofTokens T [.eof p]) ∧
      parseAs expression T (us ++ [.eof q]) = (.ok f, .ofTokens T [.eof q]) ∧ e.unlocated = f.unlocated := by
  obtain ⟨e, he, hsame⟩ := parseAs_of_unlocated (p := p) hts (m.parseAs_bracketed .unknown)
  obtain ⟨f, hf, hsame'⟩ := parseAs_of_unlocated (p := q) hus (m.parseAs_dotted .unknown)
  exact ⟨e, f, he, hf, hsame.trans hsame'.symm⟩

/-- `[x add: c ? y : z to: ^{ y; }]` and `x.add(c ? y : z, ^{ y; })`: the colon of the first argument is not that of a
keyword. -/
theorem bracketed_eq_dotted_ternary :
    let word (text : String) (column : Nat) : Token := ⟨.ident, text, ⟨1, column⟩⟩
    let choice (column : Nat) : List Token :=
      [word "c" column, Symbol.qmark.mark, word "y" (column + 4), Symbol.colon.mark, word "z" (column + 8)]
    let block (column : Nat) : List Token :=
      [Symbol.caret.mark, Symbol.lbrace.mark, word "y" column, Symbol.semi.mark, Symbol.rbrace.mark]
    let ts : List Token := Symbol.lsqb.mark :: word "x" 2 :: word "add" 4 :: Symbol.colon.mark ::
      (choice 9 ++ word "to" 19 :: Symbol.colon.mark :: (block 26 ++ [Symbol.rsqb.mark]))
    let us : List Token := word "x" 1 :: Symbol.dot.mark :: word "add" 3 :: Symbol.lpar.mark ::
      (choice 7 ++ Symbol.comma.mark :: (block 21 ++ [Symbol.rpar.mark]))
    ∃ e f, parseAs expression [] (ts ++ [.eof ⟨1, 31⟩]) = (.ok e, .ofTokens [] [.eof ⟨1, 31⟩]) ∧
      parseAs expression [] (us ++ [.eof ⟨1, 26⟩]) = (.ok f, .ofTokens [] [.eof ⟨1, 26⟩]) ∧
      e.unlocated = f.unlocated := by
  intro word choice block ts us
  have reads : ∀ {r : Except Number.BadNumeral Expr × Cursor} {c},
      r.1.isOk = true ∧ r.2 = c → ∃ e, r = (.ok e, c) := by
    rintro ⟨b | e, _⟩ c ⟨hok, rfl⟩
    · cases hok
    · exact ⟨e, rfl⟩
  obtain ⟨x, hx⟩ : ∃ e, parseAs call [] ([word "x" 2] ++ [.eof ⟨1, 3⟩]) = (.ok e, .ofTokens [] [.eof ⟨1, 3⟩]) :=
    reads (by decide +kernel)
  obtain ⟨y, hy⟩ : ∃ e, parseAs expression [] (choice 9 ++ [.eof ⟨1, 18⟩]) = (.ok e, .ofTokens [] [.eof ⟨1, 18⟩]) :=
    reads (by decide +kernel)
  obtain ⟨z, hz⟩ : ∃ e, parseAs expression [] (block 26 ++ [.eof ⟨1, 30⟩]) = (.ok e, .ofTokens [] [.eof ⟨1, 30⟩]) :=
    reads (by decide +kernel)
  let second : Phrase expression [] := ⟨block 26, z, ⟨_, _, hz⟩, by decide⟩
  exact bracketed_eq_dotted ⟨⟨[word "x" 2], x, ⟨_, _, hx⟩, by decide⟩, word "add" 4, rfl,
    some (⟨choice 9, y, ⟨_, _, hy⟩, by decide⟩, [⟨word "to" 19, rfl, second⟩])⟩ ⟨1, 31⟩ ⟨1, 26⟩ rfl rfl

end ObjScript
