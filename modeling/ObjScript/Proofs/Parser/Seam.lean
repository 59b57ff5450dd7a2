import ObjScript.Proofs.Parser.Moves
import ObjScript.Proofs.Parser.Rules

/-!
# Parsers at a seam

Tokens that end a statement are read twice: alone, with nothing but the end token after them, and joined to a text
that goes on.  `Joins S k s p Q` says that a parser which gets through the first time without an error does the same
the second time.  Its look ahead must not cross the seam, so there must be a token left wherever it looks at one:
under the condition `s` there is one at its start, and there is one behind it if its value satisfies `Q`.  The one
token that a parser asks for at the seam itself is an `else`, and what follows does not begin with it.

A token that closes no statement is never the last one.  So a parser leaves a token behind unless it reads a semicolon
or an `end`.
-/

namespace ObjScript

/-- A statement may end with a token of this kind. -/
def Kind.endsStatement : Kind → Bool
  | .symbol .semi | .keyword .endWord => true
  | _ => false

/-- What stands for something else does not end a statement. -/
theorem Kind.endsStatement_of_eq_some {γ : Type} {f : Kind → Option γ} {kind : Kind} {x : γ} (h : f kind = some x)
    (hsemi : f (.symbol .semi) = none) (hend : f (.keyword .endWord) = none) : kind.endsStatement = false := by
  unfold endsStatement
  split
  · rw [hsemi] at h
    cases h
  · rw [hend] at h
    cases h
  · rfl

/-- The end token is not among them. -/
def Inner (ts : List Token) : Prop :=
  ∀ t ∈ ts, t.kind ≠ .eof

theorem Inner.nil : Inner [] :=
  nofun

theorem Inner.tail {t : Token} {ts : List Token} (h : Inner (t :: ts)) : Inner ts :=
  fun u hu => h u (List.mem_cons_of_mem t hu)

theorem Inner.ended {ts : List Token} {last : Token} (h : Inner ts) (hlast : last.kind = .eof) :
    Ended (ts ++ [last]) := by
  induction ts with
  | nil => exact .last hlast
  | cons t ts ih => exact .more (h t List.mem_cons_self) (ih h.tail)

/-- The last token, if there is one, may end a statement, and the end token is not among them. -/
structure Complete (ts : List Token) : Prop where
  inner : ∀ t ∈ ts, t.kind ≠ .eof
  last : ∀ t ∈ ts.getLast?, t.kind.endsStatement = true

private theorem Complete.nil : Complete [] :=
  ⟨nofun, nofun⟩

theorem Complete.tail {t : Token} {ts : List Token} (h : Complete (t :: ts)) : Complete ts := by
  refine ⟨fun u hu => h.inner u (List.mem_cons_of_mem t hu), fun u hu => h.last u ?_⟩
  cases ts with
  | nil => cases hu
  | cons v ts => rwa [List.getLast?_cons_cons]

/-- A token that ends no statement has one after it. -/
theorem Complete.tail_ne_nil {t : Token} {ts : List Token} (h : Complete (t :: ts))
    (ht : t.kind.endsStatement = false) : ts ≠ [] := by
  rintro rfl
  rw [h.last t rfl] at ht
  cases ht

/-- What follows the tokens: the end token, or a text that does not go on with an `else`. -/
structure Seam where
  last : Token
  back : List Token
  eof : last.kind = .eof
  goesOn : back ≠ []
  notElse : ∀ t ∈ back.head?, t.kind ≠ .keyword .elseWord

namespace Seam

variable (S : Seam) (T : Names)

/-- Before the tokens, with the end token after them. -/
def alone (ts : List Token) : Cursor :=
  ⟨ts ++ [S.last], none, T, false⟩

/-- Before the tokens, with the text after them. -/
def joined (ts : List Token) : Cursor :=
  ⟨ts ++ S.back, none, T, false⟩

@[simp] theorem alone_current (t : Token) (ts : List Token) : (S.alone T (t :: ts)).current = t := rfl

@[simp] theorem joined_current (t : Token) (ts : List Token) : (S.joined T (t :: ts)).current = t := rfl

@[simp] theorem alone_nil_current : (S.alone T []).current = S.last := rfl

theorem alone_atEnd {ts : List Token} (h : Inner ts) : (S.alone T ts).atEnd = ts.isEmpty := by
  cases ts with
  | nil => simp [Cursor.atEnd, Token.is, S.eof]
  | cons t ts => exact decide_eq_false (h t List.mem_cons_self)

theorem joined_atEnd {t : Token} {ts : List Token} (h : Inner (t :: ts)) : (S.joined T (t :: ts)).atEnd = false :=
  decide_eq_false (h t List.mem_cons_self)

theorem alone_advance {t : Token} {ts : List Token} (h : Inner (t :: ts)) :
    (S.alone T (t :: ts)).advance = S.alone T ts := by
  unfold Cursor.advance
  rw [S.alone_atEnd T h]
  rfl

theorem joined_advance {t : Token} {ts : List Token} (h : Inner (t :: ts)) :
    (S.joined T (t :: ts)).advance = S.joined T ts := by
  unfold Cursor.advance
  rw [S.joined_atEnd T h]
  rfl

theorem alone_ended {ts : List Token} (h : Inner ts) : Ended (S.alone T ts).rest :=
  h.ended S.eof

theorem length_alone_le (ts : List Token) : (ts ++ [S.last]).length ≤ (ts ++ S.back).length := by
  have hback := List.length_pos_iff.2 S.goesOn
  simp only [List.length_append, List.length_singleton]
  omega

/-- The turns that a loop has alone and joined. -/
theorem turns (T : Names) (ts : List Token) :
    ts.length < ((S.alone T ts).current :: (ts ++ [S.last])).length ∧
      ((S.alone T ts).current :: (ts ++ [S.last])).length ≤ ((S.joined T ts).current :: (ts ++ S.back)).length := by
  have hle := S.length_alone_le ts
  simp only [List.length_append, List.length_cons] at hle ⊢
  omega

end Seam

/-- The text does not get longer, and an error stays. -/
def Way.forward : Way where
  rel c c' := c'.rest.length ≤ c.rest.length ∧ (c.error?.isSome = true → c'.error?.isSome = true)
  refl _ := ⟨Nat.le_refl _, id⟩
  trans h h' := ⟨Nat.le_trans h'.1 h.1, h'.2 ∘ h.2⟩
  advance c := by
    refine ⟨?_, by simp⟩
    unfold Cursor.advance
    split
    · exact Nat.le_refl _
    · simp
  fail c fault := ⟨by simp, fun _ => c.fail_isSome fault⟩
  cutOff _ := ⟨Nat.le_refl _, id⟩

namespace Parse

variable {α β : Type} {S : Seam} {T : Names} {X : List Token}

/-- If `p` gets through the tokens alone without an error, then `q` does the same with the text after them. -/
def JoinsAt (S : Seam) (T : Names) (X : List Token) (p q : Parse α) (Q : α → Prop) : Prop :=
  ∀ a c, p.result (S.alone T X) = (.ok a, c) → c.error? = none →
    ∃ T' Y, Complete Y ∧ c = S.alone T' Y ∧ (Q a → Y ≠ []) ∧ q.result (S.joined T X) = (.ok a, S.joined T' Y)

/-- The parser does not look across the seam, as described at the top of this file. -/
structure Joins (S : Seam) (k : Nat) (s : Prop) (p : Parse α) (Q : α → Prop) : Prop where
  moves : Moves .forward p
  joins : ∀ T X, Complete X → X.length < k → (s → X ≠ []) → JoinsAt S T X p p Q

section Sequences

variable {k j : Nat} {s s' : Prop} {p q : Parse α} {Q Q' : α → Prop} {f f' : α → Parse β} {R : β → Prop}

theorem JoinsAt.pure {a : α} (hX : Complete X) (h : Q a → X ≠ []) : JoinsAt S T X (pure a) (pure a) Q := by
  rintro _ _ ⟨⟩ -
  exact ⟨T, X, hX, rfl, h, rfl⟩

/-- One parser after the other.  The second one starts where the first one has come without an error. -/
private theorem JoinsAt.bind (h : JoinsAt S T X p q Q) (hmoves : ∀ a, Moves .forward (f a))
    (hf : ∀ a T' Y, Complete Y → (Q a → Y ≠ []) → p.result (S.alone T X) = (.ok a, S.alone T' Y) →
      JoinsAt S T' Y (f a) (f' a) R) : JoinsAt S T X (p >>= f) (q >>= f') R := by
  intro b c hb hc
  rw [result_bind] at hb
  cases hp : p.result (S.alone T X) with
  | mk r c₁ =>
    rw [hp] at hb
    cases r with
    | error e => cases hb
    | ok a =>
      have hfirst : c₁.error? = none := by
        have hstays := (hmoves a c₁).2
        rw [show ((f a).result c₁).2 = c from congrArg Prod.snd hb, hc] at hstays
        cases herr : c₁.error? with
        | none => rfl
        | some e => exact absurd (hstays (by simp [herr])) (by simp)
      obtain ⟨T₁, Y, hY, rfl, hne, hq⟩ := h a c₁ hp hfirst
      obtain ⟨T₂, Z, hZ, hcursor, hne', hq'⟩ := hf a T₁ Y hY hne hp b c hb hc
      exact ⟨T₂, Z, hZ, hcursor, hne', (result_bind_ok hq).trans hq'⟩

/-- No more tokens are left than before. -/
private theorem Moves.length_le {T' : Names} {Y : List Token} {a : α} (h : Moves .forward p)
    (hp : p.result (S.alone T X) = (.ok a, S.alone T' Y)) : Y.length ≤ X.length := by
  have hlength := (h (S.alone T X)).1
  rw [hp] at hlength
  simpa [Seam.alone] using hlength

theorem Joins.weaken (h : Joins S k s p Q) (hs : s → s') (hQ : ∀ a, Q' a → Q a) : Joins S k s' p Q' := by
  refine ⟨h.moves, fun T X hX hk hne a c hp hc => ?_⟩
  obtain ⟨T', Y, hY, hcursor, hleft, hq⟩ := h.joins T X hX hk (hne ∘ hs) a c hp hc
  exact ⟨T', Y, hY, hcursor, hleft ∘ hQ a, hq⟩

/-- Nothing is asked for behind the parser. -/
theorem Joins.never (h : Joins S k s p Q) : Joins S k s p Never :=
  h.weaken id fun _ h => h.elim

theorem Joins.mono (h : Joins S k s p Q) (hj : j ≤ k) : Joins S j s p Q :=
  ⟨h.moves, fun T X hX hk => h.joins T X hX (Nat.lt_of_lt_of_le hk hj)⟩

theorem Joins.pure {a : α} (h : Q a → s) : Joins S k s (pure a) Q :=
  ⟨.pure a, fun _ _ hX _ hne => .pure hX (hne ∘ h)⟩

theorem Joins.throw (b : Number.BadNumeral) : Joins S k s (throw b : Parse α) Q :=
  ⟨.throw b, fun _ _ _ _ _ => by rintro _ _ ⟨⟩⟩

theorem Joins.bind (h : Joins S k s p Q) (hf : ∀ a, Joins S k (Q a) (f a) R) : Joins S k s (p >>= f) R := by
  refine ⟨.bind h.moves fun a => (hf a).moves, fun T X hX hk hne => ?_⟩
  refine (h.joins T X hX hk hne).bind (fun a => (hf a).moves) fun a T' Y hY hleft hp => ?_
  exact (hf a).joins T' Y hY (Nat.lt_of_le_of_lt (h.moves.length_le hp) hk) hleft

theorem Joins.map (h : Joins S k s p Q) (g : α → β) (hQ : ∀ a, R (g a) → Q a) : Joins S k s (g <$> p) R := by
  rw [map_eq_pure_bind]
  exact .bind h fun a => .pure (hQ a)

/-- A parser that looks at the next token first. -/
theorem Joins.peek {F : Token → Parse β} (hmoves : Moves .forward (current >>= F))
    (h : ∀ T t X, Complete (t :: X) → X.length + 1 < k → JoinsAt S T (t :: X) (F t) (F t) R) :
    Joins S k True (current >>= F) R := by
  refine ⟨hmoves, fun T X hX hk hne => ?_⟩
  obtain ⟨t, X, rfl⟩ := List.exists_cons_of_ne_nil (hne trivial)
  exact h T t X hX hk

/-- Behind the next token. -/
theorem JoinsAt.advance {t : Token} {F : Token → Parse β} (hX : Complete (t :: X))
    (h : JoinsAt S T X (F t) (F t) R) : JoinsAt S T (t :: X) (advance >>= F) (advance >>= F) R := by
  intro b c hb hc
  rw [result_bind_ok (result_advance _), S.alone_advance T hX.inner] at hb
  rw [result_bind_ok (result_advance _), S.joined_advance T hX.inner]
  exact h b c hb hc

/-- Behind a token that ends no statement. -/
theorem Joins.advanced {t : Token} {F : Token → Parse β} (h : Joins S j True (F t) R) (hX : Complete (t :: X))
    (hk : X.length < j) (ht : t.kind.endsStatement = false) :
    JoinsAt S T (t :: X) (Parse.advance >>= F) (Parse.advance >>= F) R :=
  .advance hX (h.joins T X hX.tail hk fun _ => hX.tail_ne_nil ht)

end Sequences

section Tokens

variable {k j : Nat} {s : Prop} {R : β → Prop}

theorem joins_check (kind : Kind) : Joins S k True (check kind) Any := by
  refine .peek (moves_check kind) fun T t X hX _ => .pure hX fun _ => ?_
  exact List.cons_ne_nil t X

/-- Before the seam there is a token left. -/
theorem joins_atEnd : Joins S k True atEnd Any := by
  refine ⟨moves_atEnd, fun T X hX _ hne => ?_⟩
  obtain ⟨t, X, rfl⟩ := List.exists_cons_of_ne_nil (hne trivial)
  rintro _ _ ⟨⟩ -
  refine ⟨T, t :: X, hX, rfl, fun _ => List.cons_ne_nil t X, ?_⟩
  rw [result_atEnd, S.alone_atEnd T hX.inner, S.joined_atEnd T hX.inner]
  rfl

/-- There is no error yet. -/
theorem joins_hadError : Joins S k s hadError (fun _ => s) := by
  refine ⟨moves_hadError, fun T X hX _ hne => ?_⟩
  rintro _ _ ⟨⟩ -
  exact ⟨T, X, hX, rfl, hne, rfl⟩

theorem joins_fail {Q : Unit → Prop} (fault : SyntaxFault) : Joins S k s (fail fault) Q := by
  refine ⟨moves_fail fault, fun T X _ _ _ => ?_⟩
  rintro _ _ ⟨⟩ hc
  have herr := (S.alone T X).fail_isSome fault
  rw [hc] at herr
  cases herr

/-- What comes after a token that has been read may be less deep, and may start at the seam if the token may end a
statement. -/
theorem Joins.acceptOption {ok : Kind → Bool} {F : Option Token → Parse β} (hk : k ≤ j + 1)
    (hs : ∀ t, Joins S j s (F (some t)) R) (hok : s → ∀ kind, ok kind = true → kind.endsStatement = false)
    (hn : Joins S k True (F none) R) : Joins S k True (accept? ok >>= F) R := by
  have hmoves : ∀ o, Moves .forward (F o) := Option.forall.2 ⟨hn.moves, fun t => (hs t).moves⟩
  refine ⟨.bind (moves_accept? ok) hmoves, fun T X hX hlt hne => ?_⟩
  obtain ⟨t, X, rfl⟩ := List.exists_cons_of_ne_nil (hne trivial)
  intro b c hb hc
  rw [result_bind, result_accept?, S.alone_current] at hb
  rw [result_bind, result_accept?, S.joined_current]
  by_cases ht : ok t.kind = true
  · rw [if_pos ht, S.alone_advance T hX.inner] at hb
    rw [if_pos ht, S.joined_advance T hX.inner]
    rw [List.length_cons] at hlt
    exact (hs t).joins T X hX.tail (by omega) (fun h => hX.tail_ne_nil (hok h _ ht)) b c hb hc
  · rw [if_neg ht] at hb ⊢
    exact hn.joins T (t :: X) hX hlt (fun _ => List.cons_ne_nil t X) b c hb hc

/-- A token that may be there and ends no statement. -/
theorem joins_accept? {ok : Kind → Bool} (hok : ∀ kind, ok kind = true → kind.endsStatement = false) :
    Joins S k True (accept? ok) Any := by
  have h : Joins S k True (accept? ok >>= Pure.pure) Any :=
    .acceptOption (j := k) (s := True) (by omega) (fun t => .pure fun _ => trivial) (fun _ => hok)
      (.pure fun _ => trivial)
  rwa [bind_pure] at h

/-- A choice that depends on the next token, which ends no statement. -/
theorem Joins.accept {kind : Kind} {A B : Parse β} (hkind : kind.endsStatement = false) (hk : k ≤ j + 1)
    (hA : Joins S j True A R) (hB : Joins S k True B R) :
    Joins S k True (accept kind >>= fun b => if b = true then A else B) R := by
  unfold Parse.accept
  rw [bind_assoc]
  refine .acceptOption (s := True) hk (fun t => ?_) (fun _ kind' h => ?_) ?_
  · simpa using hA
  · rw [of_decide_eq_true h]
    exact hkind
  · simpa using hB

/-- A choice that depends on the next token, which may end the statement. -/
theorem Joins.acceptLast {kind : Kind} {A B : Parse β} (hk : k ≤ j + 1) (hA : Joins S j False A R)
    (hB : Joins S k True B R) : Joins S k True (Parse.accept kind >>= fun b => if b = true then A else B) R := by
  unfold Parse.accept
  rw [bind_assoc]
  refine .acceptOption (s := False) hk (fun t => ?_) False.elim ?_
  · simpa using hA
  · simpa using hB

theorem joins_accept {kind : Kind} (hkind : kind.endsStatement = false) :
    Joins S k True (Parse.accept kind) Any :=
  .bind (joins_accept? fun kind' h => by rw [of_decide_eq_true h]; exact hkind) fun _ => .pure fun _ => trivial

/-- A semicolon that may follow. -/
theorem joins_acceptLast (kind : Kind) : Joins S k True (Parse.accept kind) Never :=
  .acceptOption (j := k) (by omega) (fun _ => .pure id) False.elim (.pure fun _ => trivial)

/-- An `else` is not found at the seam. -/
theorem joins_acceptElse : Joins S k s (Parse.accept (.keyword .elseWord)) (fun b => b = true) := by
  refine ⟨moves_accept _, fun T X hX hk _ => ?_⟩
  cases X with
  | cons t X =>
    exact ((joins_accept rfl).weaken id fun _ _ => trivial).joins T (t :: X) hX hk fun _ => List.cons_ne_nil t X
  | nil =>
    have halone : (S.alone T []).current.is (.keyword .elseWord) = false := by simp [Token.is, S.eof]
    have hjoined : (S.joined T []).current.is (.keyword .elseWord) = false := by
      have hback : (S.joined T []).current = S.back.headD (Token.eof ⟨0, 0⟩) := rfl
      rw [hback]
      cases hb : S.back with
      | nil => rfl
      | cons t back => exact decide_eq_false (S.notElse t (by rw [hb]; rfl))
    intro b c hb hc
    rw [result_accept, halone] at hb
    cases hb
    exact ⟨T, [], .nil, rfl, fun h => absurd h Bool.false_ne_true, by rw [result_accept, hjoined]; rfl⟩

/-- A token that has to be there is not missed at the seam: that would be an error. -/
private theorem joins_expectOrLast {kinds : List Kind} {fault : Kind → SyntaxFault}
    (heof : kinds.contains .eof = false) :
    Joins S k s (expectOr kinds fault) fun _ => ∀ kind, kinds.contains kind = true → kind.endsStatement = false := by
  refine ⟨moves_expectOr _ _, fun T X hX _ _ => ?_⟩
  intro t c ht hc
  rw [result_expectOr] at ht
  split at ht
  · next hkind =>
    cases X with
    | nil =>
      rw [S.alone_nil_current, S.eof, heof] at hkind
      cases hkind
    | cons u X =>
      rw [S.alone_advance T hX.inner] at ht
      cases ht
      refine ⟨T, X, hX.tail, rfl, fun h => hX.tail_ne_nil (h _ hkind), ?_⟩
      rw [result_expectOr, S.joined_current, S.joined_advance T hX.inner]
      exact if_pos hkind
  · cases ht
    have herr := (S.alone T X).fail_isSome (fault (S.alone T X).current.kind)
    rw [hc] at herr
    cases herr

/-- A token that has to be there and ends no statement. -/
theorem joins_expectOr {kinds : List Kind} {fault : Kind → SyntaxFault} (heof : kinds.contains .eof = false)
    (hkinds : ∀ kind, kinds.contains kind = true → kind.endsStatement = false) :
    Joins S k s (expectOr kinds fault) Any :=
  (joins_expectOrLast heof).weaken id fun _ _ => hkinds

/-- A token that has to be there and may end the statement, if it is of the right kind. -/
theorem joins_expectLast {kind : Kind} (heof : kind ≠ .eof) :
    Joins S k s (expect kind) fun _ => kind.endsStatement = false := by
  refine (joins_expectOrLast (by simpa using heof.symm)).weaken id fun _ hkind kind' h => ?_
  rw [List.contains_iff_mem, List.mem_singleton] at h
  exact h ▸ hkind

theorem joins_expect {kind : Kind} (heof : kind ≠ .eof) (hkind : kind.endsStatement = false) :
    Joins S k s (expect kind) Any :=
  (joins_expectLast heof).weaken id fun _ _ => hkind

end Tokens

/-! ### At the seam itself -/

/-- Alone at the seam the parser notes an error. -/
def Stuck (S : Seam) (k : Nat) (p : Parse α) : Prop :=
  0 < k → ∀ T a c, p.result (S.alone T []) = (.ok a, c) → c.error?.isSome = true

section Stuck

variable {k : Nat} {s : Prop} {p : Parse α} {Q : α → Prop}

/-- What gets nowhere at the seam may as well start there. -/
theorem Joins.anywhere (h : Joins S k True p Q) (hstuck : Stuck S k p) : Joins S k s p Q := by
  refine ⟨h.moves, fun T X hX hk _ => ?_⟩
  cases X with
  | cons t X => exact h.joins T (t :: X) hX hk fun _ => List.cons_ne_nil t X
  | nil =>
    intro a c ha hc
    have herr := hstuck hk T a c ha
    rw [hc] at herr
    cases herr

theorem Stuck.bind {f : α → Parse β} (h : Stuck S k p) (hf : ∀ a, Moves .forward (f a)) : Stuck S k (p >>= f) := by
  intro hk T b c hb
  rw [result_bind] at hb
  cases hp : p.result (S.alone T []) with
  | mk r c₁ =>
    rw [hp] at hb
    cases r with
    | error e => cases hb
    | ok a =>
      have herr := (hf a c₁).2 (h hk T a c₁ hp)
      rwa [show ((f a).result c₁).2 = c from congrArg Prod.snd hb] at herr

/-- A parser that always reads a token has none to read. -/
theorem stuck_of_reads {P : α → Prop} {q : Parse α} (h : Reads Any k p q P) : Stuck S k p := by
  intro hk T a c ha
  have hend := S.alone_ended T .nil
  rcases (h (S.alone T []) hend hk).2 with ⟨a', c', hr, hlater, hpast, -⟩ | ⟨b, c', hr, -⟩
  · obtain ⟨rfl, rfl⟩ : a' = a ∧ c' = c := by simpa [hr] using ha
    refine (hpast trivial).resolve_left (Nat.not_lt_of_le ?_)
    exact hlater.ended.length_pos
  · rw [hr] at ha
    cases ha

theorem stuck_expect {kind : Kind} (heof : kind ≠ .eof) : Stuck S k (expect kind) := by
  intro _ T a c ha
  unfold expect at ha
  rw [result_expectOr, S.alone_nil_current, S.eof, if_neg (by simpa using heof.symm)] at ha
  cases ha
  exact Cursor.fail_isSome _ _

/-- A choice that depends on the next token, which the end token is not. -/
theorem Stuck.accept {kind : Kind} {A B : Parse β} (heof : kind ≠ .eof) (hB : Stuck S k B) :
    Stuck S k (Parse.accept kind >>= fun b => if b = true then A else B) := by
  intro hk T b c hb
  have hnone : (S.alone T []).current.is kind = false := by simpa [Token.is, S.eof] using heof.symm
  rw [result_bind, result_accept, hnone] at hb
  exact hB hk T b c hb

theorem Stuck.check {kind : Kind} {A B : Parse β} (heof : kind ≠ .eof) (hB : Stuck S k B) :
    Stuck S k (Parse.check kind >>= fun b => if b = true then A else B) := by
  intro hk T b c hb
  have hnone : (S.alone T []).current.is kind = false := by simpa [Token.is, S.eof] using heof.symm
  rw [result_bind_ok (result_check kind _), hnone] at hb
  exact hB hk T b c hb

end Stuck

/-! ### Loops

Alone a loop has fewer turns, but still one more than it has tokens, so it does not end for want of them. -/

/-- What gives an item reads a token, if it notes no error. -/
def Advances (k : Nat) (item : Parse (Option α)) : Prop :=
  ∀ c a c', Ended c.rest → c.rest.length ≤ k → item.result c = (.ok (some a), c') → c'.error? = none →
    c'.rest.length < c.rest.length

section Advances

variable {k : Nat}

/-- With no error to note, only a token that is read leaves less to do. -/
theorem advances_of_turns {item item' : Parse (Option α)} {P : α → Prop} (h : Turns k item item' P) :
    Advances k item := by
  intro c a c' hc hk hr herr
  obtain ⟨hreads, hleft⟩ := h c hc hk
  have hlt := hleft a c' hr
  rcases hreads.2 with ⟨o, c₁, hr', hl, -⟩ | ⟨b, c₁, hr', -⟩
  · obtain rfl : c₁ = c' := congrArg Prod.snd (hr'.symm.trans hr)
    have hbefore : ¬ c.error?.isSome := fun h => by simpa [herr] using hl.isSome h
    unfold Cursor.left at hlt
    rw [if_neg hbefore, herr, if_neg nofun] at hlt
    omega
  · cases hr'.symm.trans hr

theorem advances_none : Advances k (Pure.pure none : Parse (Option α)) := by
  rintro c a c' - - ⟨⟩

/-- Behind a token of its own the parser need not read another one. -/
theorem Moves.length_lt {p : Parse α} (h : Moves .forward p) {c : Cursor} (hc : Ended c.rest)
    (hne : c.current.kind ≠ .eof) : (p.result c.advance).2.rest.length < c.rest.length :=
  Nat.lt_of_le_of_lt (h c.advance).1 (Cursor.later_advance hc hne).2

theorem Advances.accept {kind : Kind} {A B : Parse (Option α)} (heof : kind ≠ .eof) (hA : Moves .forward A)
    (hB : Advances k B) : Advances k (Parse.accept kind >>= fun b => if b = true then A else B) := by
  intro c a c' hc hk hr herr
  rw [result_bind, result_accept] at hr
  by_cases hkind : c.current.is kind = true
  · rw [if_pos hkind] at hr
    have hlength := hA.length_lt hc (of_decide_eq_true hkind ▸ heof)
    rwa [show (A.result c.advance).2 = c' from congrArg Prod.snd hr] at hlength
  · rw [if_neg hkind] at hr
    exact hB c a c' hc hk hr herr

theorem Advances.length_lt {item : Parse (Option α)} (h : Advances k item) (hX : Inner X) (hk : X.length < k)
    {T' : Names} {Y : List Token} {a : α} (hr : item.result (S.alone T X) = (.ok (some a), S.alone T' Y)) :
    Y.length < X.length := by
  have hlength := h _ a _ (S.alone_ended T hX) (by simpa [Seam.alone] using Nat.succ_le_of_lt hk) hr rfl
  simpa [Seam.alone] using hlength

end Advances

section Loops

variable {k : Nat} {s : Prop}

/-- The rest of a turn. -/
theorem moves_turn {W : Way} {item : Parse (Option α)} (h : Moves W item) (turns : List Token) :
    ∀ o : Option α, Moves W (match o with
      | none => Pure.pure []
      | some a => many item turns >>= fun l => Pure.pure (a :: l)) :=
  Option.forall.2 ⟨.pure _, fun _ => .bind (moves_many h turns) fun _ => .pure _⟩

private theorem JoinsAt.many {item : Parse (Option α)} (hitem : Joins S k True item Any) (hadvances : Advances k item)
    (turns : List Token) : ∀ turns' T X, Complete X → X.length < k → X ≠ [] → X.length < turns.length →
      turns.length ≤ turns'.length → JoinsAt S T X (many item turns) (many item turns') Any := by
  induction turns with
  | nil => exact fun _ _ _ _ _ _ hturns _ => absurd hturns (Nat.not_lt_zero _)
  | cons t turns ih =>
    intro turns' T X hX hk hne hturns hmore
    obtain ⟨t', turns', rfl⟩ : ∃ t' us, turns' = t' :: us := List.exists_cons_of_length_pos (by
      rw [List.length_cons] at hmore
      omega)
    simp only [List.length_cons] at hturns hmore
    unfold Parse.many
    refine (hitem.joins T X hX hk fun _ => hne).bind (moves_turn hitem.moves turns) fun o T' Y hY hleft hr => ?_
    cases o with
    | none => exact .pure hY hleft
    | some a =>
      have hlength := hadvances.length_lt hX.inner hk hr
      have hmany := ih turns' T' Y hY (by omega) (hleft trivial) (by omega) (by omega)
      exact hmany.bind (fun _ => .pure _) fun l T'' Z hZ hleft _ => .pure hZ hleft

theorem joins_repeated {item : Parse (Option α)} (hitem : Joins S k True item Any) (hadvances : Advances k item) :
    Joins S k True (repeated item) Any := by
  refine ⟨moves_repeated hitem.moves, fun T X hX hk hne => ?_⟩
  obtain ⟨hturns, hmore⟩ := S.turns T X
  exact .many hitem hadvances _ _ T X hX hk (hne trivial) hturns hmore

theorem joins_commaSeparated {item : Parse α} (hitem : Joins S k True item Any) :
    Joins S k True (commaSeparated item) Any := by
  refine .bind hitem fun a => .bind (joins_repeated ?_ ?_) fun l => .pure fun _ => trivial
  · exact .accept (j := k) rfl (by omega) (.bind hitem fun b => .pure fun _ => trivial) (.pure fun _ => trivial)
  · exact .accept nofun (.bind hitem.moves fun _ => .pure _) advances_none

private theorem JoinsAt.iterate {step : α → Parse (Option α)} (hstep : ∀ a, Joins S k True (step a) Any)
    (hadvances : ∀ a, Advances k (step a)) (turns : List Token) : ∀ turns' T X a, Complete X → X.length < k → X ≠ [] →
      X.length < turns.length → turns.length ≤ turns'.length →
      JoinsAt S T X (iterate step turns a) (iterate step turns' a) Any := by
  induction turns with
  | nil => exact fun _ _ _ _ _ _ _ hturns _ => absurd hturns (Nat.not_lt_zero _)
  | cons t turns ih =>
    intro turns' T X a hX hk hne hturns hmore
    obtain ⟨t', turns', rfl⟩ : ∃ t' us, turns' = t' :: us := List.exists_cons_of_length_pos (by
      rw [List.length_cons] at hmore
      omega)
    simp only [List.length_cons] at hturns hmore
    have hloop : ∀ (o : Option α), Moves .forward (match o with
        | none => Pure.pure a
        | some b => Parse.iterate step turns b) :=
      Option.forall.2 ⟨.pure _, moves_iterate (fun a => (hstep a).moves) turns⟩
    unfold Parse.iterate
    refine ((hstep a).joins T X hX hk fun _ => hne).bind hloop fun o T' Y hY hleft hr => ?_
    cases o with
    | none => exact .pure hY hleft
    | some b =>
      have hlength := (hadvances a).length_lt hX.inner hk hr
      exact ih turns' T' Y b hY (by omega) (hleft trivial) (by omega) (by omega)

theorem joins_extend {step : α → Parse (Option α)} (a : α) (hstep : ∀ a, Joins S k True (step a) Any)
    (hadvances : ∀ a, Advances k (step a)) : Joins S k True (extend a step) Any := by
  refine ⟨moves_extend a fun a => (hstep a).moves, fun T X hX hk hne => ?_⟩
  obtain ⟨hturns, hmore⟩ := S.turns T X
  exact .iterate hstep hadvances _ _ T X a hX hk (hne trivial) hturns hmore

/-- Items up to a token that closes them.  An item may come up to the seam, but alone the closing token is then
missed. -/
private theorem JoinsAt.closing {item : Parse (Option α)} {kind : Kind} (heof : kind ≠ .eof)
    (hitem : Joins S k True item Never) (hadvances : Advances k item)
    (hstop : ∀ c : Cursor, c.atEnd = true → item.result c = (.ok none, c)) (turns : List Token) :
    ∀ turns' T X (F : List α → β), Complete X → X.length < k → X.length < turns.length →
      turns.length ≤ turns'.length →
      JoinsAt S T X (Parse.many item turns >>= fun l => expect kind >>= fun _ => Pure.pure (F l))
        (Parse.many item turns' >>= fun l => expect kind >>= fun _ => Pure.pure (F l))
        fun _ => kind.endsStatement = false := by
  induction turns with
  | nil => exact fun _ _ _ _ _ _ hturns _ => absurd hturns (Nat.not_lt_zero _)
  | cons t turns ih =>
    intro turns' T X F hX hk hturns hmore
    obtain ⟨t', turns', rfl⟩ : ∃ t' us, turns' = t' :: us := List.exists_cons_of_length_pos (by
      rw [List.length_cons] at hmore
      omega)
    simp only [List.length_cons] at hturns hmore
    have hclose :
        ∀ l, Joins S k False (expect kind >>= fun _ => Pure.pure (F l)) fun _ => kind.endsStatement = false :=
      fun l => .bind (joins_expectLast heof) fun _ => .pure id
    cases X with
    | nil =>
      intro b c hb hc
      have hmany : (Parse.many item (t :: turns)).result (S.alone T []) = (.ok [], S.alone T []) := by
        unfold Parse.many
        rw [result_bind_ok (hstop _ (S.alone_atEnd T .nil))]
        rfl
      rw [result_bind_ok hmany] at hb
      have hstuck : Stuck S k (expect kind >>= fun _ => Pure.pure (F [])) :=
        .bind (stuck_expect heof) fun _ => .pure _
      have herr := hstuck hk T b c hb
      rw [hc] at herr
      cases herr
    | cons x X =>
      unfold Parse.many
      rw [bind_assoc, bind_assoc]
      have hturn := fun o => (moves_turn hitem.moves turns o).bind fun l => (hclose l).moves
      refine (hitem.joins T (x :: X) hX hk fun _ => List.cons_ne_nil x X).bind hturn fun o T' Y hY _ hr => ?_
      have hfewer := hitem.moves.length_le hr
      cases o with
      | none =>
        simp only [pure_bind]
        exact (hclose []).joins T' Y hY (by omega) False.elim
      | some a =>
        have hlength := hadvances.length_lt hX.inner hk hr
        simp only [bind_assoc, pure_bind]
        exact ih turns' T' Y (fun l => F (a :: l)) hY (by omega) (by omega) (by omega)

theorem joins_closing {item : Parse (Option α)} (kind : Kind) (heof : kind ≠ .eof)
    (hitem : Joins S k True item Never) (hadvances : Advances k item)
    (hstop : ∀ c : Cursor, c.atEnd = true → item.result c = (.ok none, c)) (F : List α → β) :
    Joins S k s (repeated item >>= fun l => expect kind >>= fun _ => Pure.pure (F l))
      fun _ => kind.endsStatement = false := by
  refine ⟨.bind (moves_repeated hitem.moves) fun _ => .bind (moves_expect _) fun _ => .pure _,
    fun T X hX hk _ => ?_⟩
  obtain ⟨hturns, hmore⟩ := S.turns T X
  exact .closing heof hitem hadvances hstop _ _ T X F hX hk hturns hmore

end Loops

end Parse

end ObjScript
