import ObjScript.Proofs.Parser.Joins
import ObjScript.Proofs.Syntax.Tokens

/-!
# Parsers that do not mind what follows

An expression does not close itself as a statement does: it is over where the next token does not go on with it.  So
its parser looks across a seam, but what it sees there makes no difference.  Tokens are again read twice, alone with
nothing but the end token after them and joined to a text that goes on.  `Steady S k whole p` says that a run of `p`
alone that ends without an error before the seam, or if `whole` holds one that comes up to the seam, is the same run
joined.

A run that ends before the seam has not looked across it, so without `whole` that is all there is to a sequence.  With
it a parser in the midst of a rule that needs another token need not be followed up to the seam, for alone the token
would be missed.
-/

namespace ObjScript

open Parse

theorem Inner.of_suffix {ts us : List Token} (h : Inner ts) (hs : us <:+ ts) : Inner us :=
  fun t ht => h t (hs.subset ht)

/-- Tokens other than the end token have been read, and an error and the mark of an unfinished parse stay. -/
def Way.within : Way where
  rel c c' := (∃ read, Inner read ∧ c.rest = read ++ c'.rest) ∧
    (c.error?.isSome = true → c'.error?.isSome = true) ∧ (c.unfinished = true → c'.unfinished = true)
  refl _ := ⟨⟨[], .nil, rfl⟩, id, id⟩
  trans := by
    rintro c₁ c₂ c₃ ⟨⟨read, hread, h⟩, herr, hmark⟩ ⟨⟨more, hmore, h'⟩, herr', hmark'⟩
    refine ⟨⟨read ++ more, List.forall_mem_append.2 ⟨hread, hmore⟩, ?_⟩, herr' ∘ herr, hmark' ∘ hmark⟩
    rw [h, h', List.append_assoc]
  advance c := by
    refine ⟨?_, by simp, by simp⟩
    unfold Cursor.advance
    split
    · exact ⟨[], .nil, rfl⟩
    · next hend =>
      obtain ⟨_ | ⟨t, rest⟩, error?, typedefs, unfinished⟩ := c
      · exact absurd rfl hend
      · exact ⟨[t], List.forall_mem_singleton.2 fun h => hend (decide_eq_true h), rfl⟩
  fail c fault := ⟨⟨[], .nil, by simp⟩, fun _ => c.fail_isSome fault, by simp⟩
  cutOff _ := ⟨⟨[], .nil, rfl⟩, id, fun _ => rfl⟩

theorem typedefMoves_within (n : Nat) : TypedefMoves .within (grammar n) :=
  typedefMoves_of_register (W := .within) (fun _ _ => ⟨⟨[], .nil, rfl⟩, id, id⟩) n

namespace Seam

variable (S : Seam) {T T' : Names} {X Y : List Token}

/-- The first token after the tokens. -/
def next : Token :=
  S.back.headD (Token.eof ⟨0, 0⟩)

/-- What follows does not go on with an expression. -/
def Ends : Prop :=
  S.next.kind.continuation? = none

@[simp] theorem joined_nil_current : (S.joined T []).current = S.next := rfl

theorem alone_inj (h : S.alone T X = S.alone T' Y) : T = T' ∧ X = Y :=
  ⟨congrArg Cursor.typedefs h, List.append_cancel_right (congrArg Cursor.rest h)⟩

end Seam

namespace Parse

variable {α β : Type} {S : Seam} {T T' : Names} {X Z : List Token} {k j : Nat} {whole first : Prop}

/-! ### Runs before the seam -/

section Runs

variable {p : Parse α} {f : α → Parse β} {a : α} {b : β}

theorem Moves.forward (h : Moves .within p) : Moves .forward p := by
  intro c
  obtain ⟨⟨read, -, hrest⟩, herr, -⟩ := h c
  refine ⟨?_, herr⟩
  rw [hrest, List.length_append]
  exact Nat.le_add_left _ _

/-- Without an error the parser comes to a place among the tokens, or to the seam. -/
private theorem Moves.alone (h : Moves .within p) {c : Cursor} (hp : (p.result (S.alone T X)).2 = c)
    (hc : c.error? = none)
    (hfinished : c.unfinished = false) : ∃ T' Y, c = S.alone T' Y ∧ Y <:+ X := by
  obtain ⟨⟨read, hread, hrest⟩, -⟩ := h (S.alone T X)
  rw [hp] at hrest
  obtain ⟨rest, error?, T', unfinished⟩ := c
  obtain rfl : error? = none := hc
  obtain rfl : unfinished = false := hfinished
  rcases List.append_eq_append_iff.1 hrest with ⟨extra, hextra, hlast⟩ | ⟨Y, hY, hleft⟩
  · cases extra with
    | nil => exact ⟨T', [], congrArg (fun rest => Cursor.mk rest none T' false) hlast.symm, List.nil_suffix⟩
    | cons t extra =>
      obtain ⟨rfl, -⟩ := List.cons.inj hlast
      refine absurd S.eof (hread _ ?_)
      rw [hextra]
      exact List.mem_append_right _ List.mem_cons_self
  · exact ⟨T', Y, congrArg (fun rest => Cursor.mk rest none T' false) hleft, read, hY.symm⟩

/-- At the seam there is nothing to leave. -/
private theorem Moves.whole_of_nil (h : Moves .within p) {Y : List Token}
    (hp : p.result (S.alone T []) = (.ok a, S.alone T' Y))
    (hwhole : whole ∨ Y ≠ []) : whole := by
  obtain ⟨_, _, hcursor, hY⟩ := h.alone (congrArg Prod.snd hp) rfl rfl
  obtain ⟨-, rfl⟩ := S.alone_inj hcursor
  exact hwhole.resolve_right (· (List.suffix_nil.1 hY))

/-- A sequence that gets through without an error has come through its first parser. -/
theorem exists_of_alone_bind (h : (p >>= f).result (S.alone T X) = (.ok b, S.alone T' Z)) (hp : Moves .within p)
    (hf : ∀ a, Moves .within (f a)) :
    ∃ a T₁ Y, p.result (S.alone T X) = (.ok a, S.alone T₁ Y) ∧ Y <:+ X ∧
      (f a).result (S.alone T₁ Y) = (.ok b, S.alone T' Z) ∧ Z <:+ Y := by
  obtain ⟨a, c, ha, hb⟩ := exists_of_result_bind h
  obtain ⟨-, herror, hmark⟩ := hf a c
  rw [hb] at herror hmark
  have hc : c.error? = none := by
    cases herr : c.error? with
    | none => rfl
    | some e => exact absurd (herror (by simp [herr])) (by simp [Seam.alone])
  have hfinished : c.unfinished = false := Bool.eq_false_of_not_eq_true fun h => Bool.false_ne_true (hmark h)
  obtain ⟨T₁, Y, rfl, hY⟩ := hp.alone (congrArg Prod.snd ha) hc hfinished
  obtain ⟨T₂, Z', hZ', hZ⟩ := (hf a).alone (congrArg Prod.snd hb) rfl rfl
  obtain ⟨-, rfl⟩ := S.alone_inj hZ'
  exact ⟨a, T₁, Y, ha, hY, hb, hZ⟩

end Runs

/-! ### Steady parsers -/

/-- If `p` gets through the tokens alone without an error, and leaves some of them or need not, then `q` does the same
with the text after them. -/
def SteadyAt (S : Seam) (T : Names) (X : List Token) (whole : Prop) (p q : Parse α) : Prop :=
  ∀ a T' Y, p.result (S.alone T X) = (.ok a, S.alone T' Y) → whole ∨ Y ≠ [] →
    q.result (S.joined T X) = (.ok a, S.joined T' Y)

/-- What follows the tokens makes no difference to the parser, as described at the top of this file. -/
structure Steady (S : Seam) (k : Nat) (whole : Prop) (p : Parse α) : Prop where
  moves : Moves .within p
  steady : ∀ T X, Inner X → X.length < k → SteadyAt S T X whole p p

section Sequences

variable {p q : Parse α} {f f' : α → Parse β}

theorem SteadyAt.of_result (a : α) (T' : Names) (Y : List Token) (hp : p.result (S.alone T X) = (.ok a, S.alone T' Y))
    (hq : q.result (S.joined T X) = (.ok a, S.joined T' Y)) : SteadyAt S T X whole p q := by
  intro b T'' Z h _
  rw [hp] at h
  obtain ⟨hab, hcursor⟩ := Prod.mk.inj h
  obtain rfl := Except.ok.inj hab
  obtain ⟨rfl, rfl⟩ := S.alone_inj hcursor
  exact hq

/-- A parser that notes an error does not get through. -/
private theorem SteadyAt.of_error (h : ∀ a c, p.result (S.alone T X) = (.ok a, c) → c.error?.isSome = true) :
    SteadyAt S T X whole p q :=
  fun a _ _ ha _ => absurd (h a _ ha) Bool.false_ne_true

theorem SteadyAt.pure {a : α} : SteadyAt S T X whole (pure a) (pure a) :=
  .of_result a T X rfl rfl

/-- One parser after the other.  The first one may come up to the seam if the second one may start there. -/
private theorem SteadyAt.bind (hmoves : Moves .within p) (hmoves' : ∀ a, Moves .within (f a))
    (h : SteadyAt S T X first p q)
    (hseam : ∀ a T₁ b T₂, whole → (f a).result (S.alone T₁ []) = (.ok b, S.alone T₂ []) → first)
    (hf : ∀ a T₁ Y, p.result (S.alone T X) = (.ok a, S.alone T₁ Y) → Y <:+ X →
      SteadyAt S T₁ Y whole (f a) (f' a)) : SteadyAt S T X whole (p >>= f) (q >>= f') := by
  intro b T₂ Z hb hwhole
  obtain ⟨a, T₁, Y, ha, hY, hb, hZ⟩ := exists_of_alone_bind hb hmoves hmoves'
  have hfirst : first ∨ Y ≠ [] := by
    by_cases hne : Y = []
    · subst hne
      obtain rfl := List.suffix_nil.1 hZ
      exact .inl (hseam a T₁ b T₂ (hwhole.resolve_right (· rfl)) hb)
    · exact .inr hne
  exact (result_bind_ok (h a T₁ Y ha hfirst)).trans (hf a T₁ Y ha hY b T₂ Z hb hwhole)

private theorem Steady.weaken (h : Steady S k whole p) (hfirst : first → whole) : Steady S k first p :=
  ⟨h.moves, fun T X hX hk a T' Y ha hne => h.steady T X hX hk a T' Y ha (hne.imp_left hfirst)⟩

/-- A run that ends before the seam. -/
theorem Steady.before (h : Steady S k whole p) : Steady S k False p :=
  h.weaken False.elim

theorem Steady.mono (h : Steady S k whole p) (hj : j ≤ k) : Steady S j whole p :=
  ⟨h.moves, fun T X hX hk => h.steady T X hX (Nat.lt_of_lt_of_le hk hj)⟩

theorem Steady.pure (a : α) : Steady S k whole (pure a) :=
  ⟨.pure a, fun _ _ _ _ => .pure⟩

theorem Steady.throw (b : Number.BadNumeral) : Steady S k whole (throw b : Parse α) :=
  ⟨.throw b, fun _ _ _ _ => by rintro _ _ _ ⟨⟩⟩

theorem Steady.bind (h : Steady S k whole p) (hf : ∀ a, Steady S k whole (f a)) : Steady S k whole (p >>= f) := by
  refine ⟨.bind h.moves fun a => (hf a).moves, fun T X hX hk => ?_⟩
  refine (h.steady T X hX hk).bind h.moves (fun a => (hf a).moves) (fun _ _ _ _ hwhole _ => hwhole) ?_
  intro a T₁ Y _ hY
  exact (hf a).steady T₁ Y (hX.of_suffix hY) (Nat.lt_of_le_of_lt hY.length_le hk)

/-- The second parser needs a token, so the first one leaves one. -/
private theorem Steady.bindStuck (h : Steady S k False p) (hf : ∀ a, Steady S k whole (f a))
    (hstuck : ∀ a, Stuck S k (f a)) :
    Steady S k whole (p >>= f) := by
  refine ⟨.bind h.moves fun a => (hf a).moves, fun T X hX hk => ?_⟩
  refine (h.steady T X hX hk).bind h.moves (fun a => (hf a).moves) ?_ fun a T₁ Y _ hY => ?_
  · intro a T₁ b T₂ _ hb
    exact absurd (hstuck a (Nat.zero_lt_of_lt hk) T₁ b _ hb) Bool.false_ne_true
  · exact (hf a).steady T₁ Y (hX.of_suffix hY) (Nat.lt_of_le_of_lt hY.length_le hk)

theorem Steady.map (h : Steady S k whole p) (g : α → β) : Steady S k whole (g <$> p) := by
  rw [map_eq_pure_bind]
  exact .bind h fun _ => .pure _

/-- At the seam the parser need not be followed if it does not come further. -/
theorem Steady.ofCons (hmoves : Moves .within p) (hstuck : whole → Stuck S k p)
    (h : ∀ T t X, Inner (t :: X) → X.length + 1 < k → SteadyAt S T (t :: X) whole p p) : Steady S k whole p := by
  refine ⟨hmoves, fun T X hX hk => ?_⟩
  cases X with
  | cons t X => exact h T t X hX hk
  | nil =>
    intro a T' Y ha hne
    exact SteadyAt.of_error (fun a c => hstuck (hmoves.whole_of_nil ha hne) hk T a c) a T' Y ha hne

/-- A parser that looks at the next token first. -/
theorem Steady.peek {F : Token → Parse β} (hmoves : Moves .within (current >>= F))
    (hstuck : whole → Stuck S k (current >>= F))
    (h : ∀ T t X, Inner (t :: X) → X.length + 1 < k → SteadyAt S T (t :: X) whole (F t) (F t)) :
    Steady S k whole (current >>= F) :=
  .ofCons hmoves hstuck h

/-- A parser that looks at the next token first, and may do so at the seam. -/
theorem Steady.peekNext {F : Token → Parse β} (hmoves : Moves .within (current >>= F))
    (h : ∀ T t X, Inner (t :: X) → X.length + 1 < k → SteadyAt S T (t :: X) whole (F t) (F t))
    (hseam : whole → ∀ T, SteadyAt S T [] whole (F S.last) (F S.next)) : Steady S k whole (current >>= F) := by
  refine ⟨hmoves, fun T X hX hk => ?_⟩
  cases X with
  | cons t X => exact h T t X hX hk
  | nil =>
    intro a T' Y ha hne
    exact hseam (hmoves.whole_of_nil ha hne) T a T' Y ha hne

/-- Behind the next token. -/
private theorem SteadyAt.advance {t : Token} (hX : Inner (t :: X)) (h : SteadyAt S T X whole p q) :
    SteadyAt S T (t :: X) whole (advance >>= fun _ => p) (advance >>= fun _ => q) := by
  intro b T' Z hb hne
  rw [result_bind_ok (result_advance _), S.alone_advance T hX] at hb
  rw [result_bind_ok (result_advance _), S.joined_advance T hX]
  exact h b T' Z hb hne

theorem Steady.advanced {t : Token} (h : Steady S j whole p) (hX : Inner (t :: X)) (hk : X.length < j) :
    SteadyAt S T (t :: X) whole (Parse.advance >>= fun _ => p) (Parse.advance >>= fun _ => p) :=
  .advance hX (h.steady T X hX.tail hk)

end Sequences

section Tokens

theorem steady_check (kind : Kind) : Steady S k False (check kind) :=
  .ofCons (moves_check kind) False.elim fun T t X _ _ => .of_result (t.is kind) T (t :: X) rfl rfl

theorem steady_atEnd : Steady S k False atEnd := by
  refine .ofCons moves_atEnd False.elim fun T t X hX _ => .of_result false T (t :: X) ?_ ?_
  · rw [result_atEnd, S.alone_atEnd T hX]
    rfl
  · rw [result_atEnd, S.joined_atEnd T hX]

/-- There is no error yet. -/
theorem steady_hadError : Steady S k whole hadError :=
  ⟨moves_hadError, fun T X _ _ => .of_result false T X rfl rfl⟩

theorem steady_fail (fault : SyntaxFault) : Steady S k whole (fail fault) := by
  refine ⟨moves_fail fault, fun T X _ _ => .of_error ?_⟩
  rintro _ _ ⟨⟩
  exact (S.alone T X).fail_isSome fault

theorem steady_advance : Steady S k False advance := by
  refine .ofCons moves_advance False.elim fun T t X hX _ => .of_result t T X ?_ ?_
  · rw [result_advance, S.alone_advance T hX]
    rfl
  · rw [result_advance, S.joined_advance T hX]
    rfl

/-- What comes after a token that has been read may be less deep. -/
theorem Steady.acceptOption {ok : Kind → Bool} {F : Option Token → Parse β} (hk : k ≤ j + 1) (heof : ok .eof = false)
    (hs : ∀ t, Steady S j whole (F (some t))) (hn : Steady S k whole (F none))
    (hseam : whole → ok S.next.kind = false ∨ Stuck S k (F none)) : Steady S k whole (accept? ok >>= F) := by
  have hmoves : ∀ o, Moves .within (F o) := Option.forall.2 ⟨hn.moves, fun t => (hs t).moves⟩
  refine ⟨.bind (moves_accept? ok) hmoves, fun T X hX hlt b T' Z hb hne => ?_⟩
  cases X with
  | cons t X =>
    rw [result_bind, result_accept?, S.alone_current] at hb
    rw [result_bind, result_accept?, S.joined_current]
    by_cases ht : ok t.kind = true
    · rw [if_pos ht, S.alone_advance T hX] at hb
      rw [if_pos ht, S.joined_advance T hX]
      rw [List.length_cons] at hlt
      exact (hs t).steady T X hX.tail (by omega) b T' Z hb hne
    · rw [if_neg ht] at hb ⊢
      exact hn.steady T (t :: X) hX hlt b T' Z hb hne
  | nil =>
    rw [result_bind, result_accept?, S.alone_nil_current, S.eof, heof] at hb
    rcases hseam (hn.moves.whole_of_nil hb hne) with hnext | hstuck
    · rw [result_bind, result_accept?, S.joined_nil_current, hnext]
      exact hn.steady T [] hX hlt b T' Z hb hne
    · exact absurd (hstuck hlt T b _ hb) Bool.false_ne_true

theorem steady_accept? {ok : Kind → Bool} (heof : ok .eof = false) : Steady S k False (accept? ok) := by
  have h : Steady S k False (accept? ok >>= Pure.pure) :=
    .acceptOption (j := k) (by omega) heof (fun _ => .pure _) (.pure _) False.elim
  rwa [bind_pure] at h

/-- A choice that depends on the next token. -/
theorem Steady.accept {kind : Kind} {A B : Parse β} (heof : kind ≠ .eof) (hk : k ≤ j + 1) (hA : Steady S j whole A)
    (hB : Steady S k whole B) (hseam : whole → S.next.kind ≠ kind ∨ Stuck S k B) :
    Steady S k whole (accept kind >>= fun b => if b = true then A else B) := by
  unfold Parse.accept
  rw [bind_assoc]
  refine .acceptOption hk (by simpa using heof.symm) (fun t => ?_) ?_ fun h => ?_
  · simpa using hA
  · simpa using hB
  · simpa using hseam h

theorem steady_accept {kind : Kind} (heof : kind ≠ .eof) : Steady S k False (accept kind) :=
  .bind (steady_accept? (by simpa using heof.symm)) fun _ => .pure _

/-- A token that has to be there is not missed at the seam: that would be an error. -/
theorem steady_expectOr {kinds : List Kind} {fault : Kind → SyntaxFault} (heof : kinds.contains .eof = false) :
    Steady S k whole (expectOr kinds fault) := by
  refine ⟨moves_expectOr _ _, fun T X hX _ => ?_⟩
  have missed : kinds.contains (S.alone T X).current.kind = false →
      SteadyAt S T X whole (expectOr kinds fault) (expectOr kinds fault) := by
    refine fun hkind => .of_error fun t c ht => ?_
    rw [result_expectOr, hkind] at ht
    cases ht
    exact Cursor.fail_isSome _ _
  cases X with
  | nil => exact missed (by rw [S.alone_nil_current, S.eof, heof])
  | cons t X =>
    cases ht : kinds.contains t.kind with
    | false => exact missed ht
    | true =>
      refine .of_result t T X ?_ ?_
      · rw [result_expectOr, S.alone_current, if_pos ht, S.alone_advance T hX]
      · rw [result_expectOr, S.joined_current, if_pos ht, S.joined_advance T hX]

theorem steady_expect {kind : Kind} (heof : kind ≠ .eof) : Steady S k whole (expect kind) :=
  steady_expectOr (by simpa using heof.symm)

/-- Before a token that has to be there. -/
theorem Steady.bindExpect {p : Parse α} {F : α → Token → Parse β} {kind : Kind} (heof : kind ≠ .eof)
    (h : Steady S k False p) (hF : ∀ a t, Steady S k whole (F a t)) :
    Steady S k whole (p >>= fun a => expect kind >>= F a) :=
  .bindStuck h (fun a => .bind (steady_expect heof) (hF a)) fun a =>
    .bind (stuck_expect heof) fun t => (hF a t).moves.forward

/-- A new type name is known alone and joined. -/
theorem steady_register (name : String) :
    Steady S k whole (modify fun c : Cursor => { c with typedefs := c.typedefs.add name }) :=
  ⟨fun _ => ⟨⟨[], .nil, rfl⟩, id, id⟩, fun T X _ _ => .of_result () (T.add name) X rfl rfl⟩

end Tokens

/-! ### Loops

Alone a loop has fewer turns, but one more than it has tokens, as at a seam between statements. -/

section Loops

private theorem SteadyAt.many {item : Parse (Option α)} (hitem : Steady S k whole item) (hadvances : Advances k item)
    (turns : List Token) : ∀ turns' T X, Inner X → X.length < k → X.length < turns.length →
      turns.length ≤ turns'.length → SteadyAt S T X whole (many item turns) (many item turns') := by
  induction turns with
  | nil => exact fun _ _ _ _ _ hturns _ => absurd hturns (Nat.not_lt_zero _)
  | cons t turns ih =>
    intro turns' T X hX hk hturns hmore
    obtain ⟨t', turns', rfl⟩ : ∃ t' us, turns' = t' :: us := List.exists_cons_of_length_pos (by
      rw [List.length_cons] at hmore
      omega)
    simp only [List.length_cons] at hturns hmore
    unfold Parse.many
    refine (hitem.steady T X hX hk).bind hitem.moves (moves_turn hitem.moves turns) (fun _ _ _ _ h _ => h) ?_
    intro o T₁ Y ho hY
    cases o with
    | none => exact .pure
    | some a =>
      have hlength := hadvances.length_lt hX hk ho
      have hmany := ih turns' T₁ Y (hX.of_suffix hY) (by omega) (by omega) (by omega)
      exact hmany.bind (moves_many hitem.moves turns) (fun _ => .pure _) (fun _ _ _ _ h _ => h) fun _ _ _ _ _ => .pure

theorem steady_repeated {item : Parse (Option α)} (hitem : Steady S k whole item) (hadvances : Advances k item) :
    Steady S k whole (repeated item) := by
  refine ⟨moves_repeated hitem.moves, fun T X hX hk => ?_⟩
  obtain ⟨hturns, hmore⟩ := S.turns T X
  exact .many hitem hadvances _ _ T X hX hk hturns hmore

theorem steady_commaSeparated {item : Parse α} (hitem : Steady S k False item) :
    Steady S k False (commaSeparated item) := by
  refine .bind hitem fun a => .bind (steady_repeated ?_ ?_) fun l => .pure _
  · exact .accept (j := k) nofun (by omega) (.bind hitem fun b => .pure _) (.pure _) False.elim
  · exact .accept nofun (.bind hitem.moves.forward fun _ => .pure _) advances_none

private theorem SteadyAt.iterate {step : α → Parse (Option α)} (hstep : ∀ a, Steady S k whole (step a))
    (hadvances : ∀ a, Advances k (step a)) (turns : List Token) : ∀ turns' T X a, Inner X → X.length < k →
      X.length < turns.length → turns.length ≤ turns'.length →
      SteadyAt S T X whole (iterate step turns a) (iterate step turns' a) := by
  induction turns with
  | nil => exact fun _ _ _ _ _ _ hturns _ => absurd hturns (Nat.not_lt_zero _)
  | cons t turns ih =>
    intro turns' T X a hX hk hturns hmore
    obtain ⟨t', turns', rfl⟩ : ∃ t' us, turns' = t' :: us := List.exists_cons_of_length_pos (by
      rw [List.length_cons] at hmore
      omega)
    simp only [List.length_cons] at hturns hmore
    unfold Parse.iterate
    refine ((hstep a).steady T X hX hk).bind (hstep a).moves
      (Option.forall.2 ⟨.pure _, moves_iterate (fun a => (hstep a).moves) turns⟩) (fun _ _ _ _ h _ => h)
      fun o T₁ Y ho hY => ?_
    cases o with
    | none => exact .pure
    | some b =>
      have hlength := (hadvances a).length_lt hX hk ho
      exact ih turns' T₁ Y b (hX.of_suffix hY) (by omega) (by omega) (by omega)

theorem steady_extend {step : α → Parse (Option α)} (a : α) (hstep : ∀ a, Steady S k whole (step a))
    (hadvances : ∀ a, Advances k (step a)) : Steady S k whole (extend a step) := by
  refine ⟨moves_extend a fun a => (hstep a).moves, fun T X hX hk => ?_⟩
  obtain ⟨hturns, hmore⟩ := S.turns T X
  exact .iterate hstep hadvances _ _ T X a hX hk hturns hmore

end Loops

end Parse

end ObjScript
