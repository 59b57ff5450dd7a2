import ObjScript.Proofs.Parser.Rules
import ObjScript.Proofs.Parser.RoundTrip

/-!
# The tokens that a parser has read

`Yields k p Q` says which tokens a parser has read when it comes back without an error: between its two
cursors lies a list of tokens that `Q` ties to the value.  Here stand sequences, choices and loops, as for
`Reads`.
-/

namespace ObjScript

namespace Parse

variable {α β : Type}

/-- What `p` has read from `c` on, if there is no error. -/
def YieldsAt (c : Cursor) (p : Parse α) (Q : List Token → α → Prop) : Prop :=
  ∀ a c', p.result c = (.ok a, c') →
    c.Behind c' ∧ (c'.error? = none → ∃ used, c.rest = used ++ c'.rest ∧ Q used a)

/-- What `p` reads with at most `k` tokens left. -/
def Yields (k : Nat) (p : Parse α) (Q : List Token → α → Prop) : Prop :=
  ∀ c : Cursor, Ended c.rest → c.rest.length ≤ k → YieldsAt c p Q

section Sequences

variable {k : Nat} {c : Cursor} {p : Parse α} {f : α → Parse β} {P P' : List Token → α → Prop}
variable {Q : List Token → β → Prop}

theorem YieldsAt.weaken (h : YieldsAt c p P) (hP : ∀ u a, P u a → P' u a) : YieldsAt c p P' := by
  intro a c' ha
  obtain ⟨hl, hu⟩ := h a c' ha
  refine ⟨hl, fun herr => ?_⟩
  obtain ⟨used, hused, hPu⟩ := hu herr
  exact ⟨used, hused, hP used a hPu⟩

theorem Yields.weaken (h : Yields k p P) (hP : ∀ u a, P u a → P' u a) : Yields k p P' :=
  fun c hc hk => (h c hc hk).weaken hP

theorem Yields.mono {j : Nat} (h : Yields k p P) (hj : j ≤ k) : Yields j p P :=
  fun c hc hk => h c hc (Nat.le_trans hk hj)

theorem Yields.pure {a : α} (h : P [] a) : Yields k (Pure.pure a) P := by
  intro c hc _ a' c' ha
  cases ha
  exact ⟨.refl hc, fun _ => ⟨[], rfl, h⟩⟩

/-- One parser after the other.  The second one may take the first for granted, but it must not go back
whatever the first has done. -/
theorem Yields.bind (hp : Yields k p P) (hf : ∀ a, Yields k (f a) fun v b => ∀ u, P u a → Q (u ++ v) b) :
    Yields k (p >>= f) Q := by
  intro c hc hk b c' hb
  rw [result_bind] at hb
  split at hb
  · rename_i a c₁ ha
    obtain ⟨hl, hu⟩ := hp c hc hk a c₁ ha
    obtain ⟨hl', hv⟩ := hf a c₁ hl.ended (Nat.le_trans hl.length_le hk) b c' hb
    refine ⟨hl.trans hl', fun herr => ?_⟩
    have herr₁ : c₁.error? = none := by
      cases h : c₁.error? with
      | none => rfl
      | some e =>
        have := hl'.isSome (by simp [h])
        simp [herr] at this
    obtain ⟨u, hu, hPu⟩ := hu herr₁
    obtain ⟨v, hv, hQ⟩ := hv herr
    exact ⟨u ++ v, by rw [hu, hv, List.append_assoc], hQ u hPu⟩
  · cases hb

/-- A parser that looks at the next token first. -/
theorem Yields.peek {F : Token → Parse β}
    (h : ∀ c, Ended c.rest → c.rest.length ≤ k → YieldsAt c (F c.current) Q) : Yields k (current >>= F) Q := by
  intro c hc hk b c' hb
  rw [result_bind_ok (result_current c)] at hb
  exact h c hc hk b c' hb

/-- After a token that is not the end token fewer tokens are left. -/
theorem YieldsAt.advance {F : Token → Parse β} (hc : Ended c.rest) (hk : c.rest.length ≤ k + 1)
    (ht : c.current.kind ≠ .eof) (h : Yields k (F c.current) fun v b => Q (c.current :: v) b) :
    YieldsAt c (Parse.advance >>= F) Q := by
  intro b c' hb
  rw [result_bind_ok (result_advance c)] at hb
  obtain ⟨hl, hlt⟩ := Cursor.later_advance hc ht
  obtain ⟨hrest, -⟩ := Cursor.rest_eq_cons hc ht
  obtain ⟨hl', hv⟩ := h c.advance hl.ended (by omega) b c' hb
  refine ⟨hl.toBehind.trans hl', fun herr => ?_⟩
  obtain ⟨v, hv, hQ⟩ := hv herr
  exact ⟨c.current :: v, by rw [hrest, hv, List.cons_append], hQ⟩

/-- A value in place of one that was not found. -/
private theorem yields_cutOff {a : α} (h : P [] a) : Yields k (cutOff a) P := by
  intro c hc _ a' c' ha
  cases ha
  exact ⟨⟨List.suffix_refl _, hc, .inl rfl⟩, fun _ => ⟨[], rfl, h⟩⟩

/-- A choice that depends on the next token. -/
theorem YieldsAt.accept {kind : Kind} {A B : Parse β} (hkind : kind ≠ .eof) (hc : Ended c.rest)
    (hk : c.rest.length ≤ k + 1) (hA : c.current.kind = kind → Yields k A fun v b => Q (c.current :: v) b)
    (hB : YieldsAt c B Q) : YieldsAt c (Parse.accept kind >>= fun b => if b = true then A else B) Q := by
  intro b c' hb
  rw [result_bind, result_accept] at hb
  by_cases h : c.current.kind = kind
  · have hadv : YieldsAt c (Parse.advance >>= fun _ => A) Q := .advance hc hk (h ▸ hkind) (hA h)
    rw [if_pos (Token.is_iff.2 h)] at hb
    exact hadv b c' hb
  · rw [if_neg fun hk => h (Token.is_iff.1 hk)] at hb
    exact hB b c' hb

theorem Yields.accept {kind : Kind} {A B : Parse β} (hkind : kind ≠ .eof)
    (hA : Yields k A fun v b => ∀ t, t.kind = kind → Q (t :: v) b) (hB : Yields (k + 1) B Q) :
    Yields (k + 1) (Parse.accept kind >>= fun b => if b = true then A else B) Q :=
  fun c hc hk => .accept hkind hc hk (fun h => hA.weaken fun _ _ hQ => hQ c.current h) (hB c hc hk)

theorem yields_expect {kind : Kind} (hkind : kind ≠ .eof) :
    Yields k (expect kind) fun u t => u = [t] ∧ t.kind = kind := by
  intro c hc _ t c' ht
  unfold expect at ht
  rw [result_expectOr] at ht
  split at ht
  · rename_i hk
    have hkind' : c.current.kind = kind := by simpa using hk
    obtain ⟨hrest, -⟩ := Cursor.rest_eq_cons hc (hkind' ▸ hkind)
    cases ht
    exact ⟨(Cursor.later_advance hc (hkind' ▸ hkind)).1.toBehind, fun _ => ⟨[c.current], hrest, rfl, hkind'⟩⟩
  · cases ht
    refine ⟨(Cursor.later_fail hc _).toBehind, fun herr => ?_⟩
    have := c.fail_isSome (.expected [kind] c.current.kind)
    simp [herr] at this

theorem yields_check (kind : Kind) : Yields k (check kind) fun u _ => u = [] := by
  intro c hc _ b c' hb
  cases hb
  exact ⟨.refl hc, fun _ => ⟨[], rfl, rfl⟩⟩

theorem yields_fail (fault : SyntaxFault) {Q : List Token → Unit → Prop} : Yields k (fail fault) Q := by
  intro c hc _ a c' ha
  cases ha
  refine ⟨(Cursor.later_fail hc fault).toBehind, fun herr => ?_⟩
  have := c.fail_isSome fault
  simp [herr] at this

/-- A parser that moves has read the next token. -/
theorem ReadsAt.yields {q : Parse α} {P : α → Prop} (h : ReadsAt Any c p q P) :
    YieldsAt c p fun u _ => ∃ v, u = c.current :: v := by
  intro a c' ha
  rcases h.2 with ⟨a', c'', ha', hl, hpast, -⟩ | ⟨b, c'', hb, -⟩
  · cases ha.symm.trans ha'
    refine ⟨hl.toBehind, fun herr => ?_⟩
    obtain ⟨used, hused⟩ := hl.suffix
    refine ⟨used, hused.symm, ?_⟩
    rcases hpast trivial with hlt | hsome
    · cases used with
      | nil =>
        rw [List.nil_append] at hused
        rw [hused] at hlt
        exact absurd hlt (Nat.lt_irrefl _)
      | cons t v =>
        refine ⟨v, ?_⟩
        unfold Cursor.current
        rw [← hused]
        rfl
    · simp [herr] at hsome
  · cases ha.symm.trans hb

end Sequences

section Loops

variable {k : Nat}

/-- A loop with a turn for all that is left to do. -/
private theorem yields_withTurns {F : List Token → Parse β} {Q : List Token → β → Prop}
    (h : ∀ turns, Yields k (F turns) Q) :
    Yields k (turns >>= F) Q := by
  intro c hc hk b c' hb
  rw [result_bind_ok (result_turns c)] at hb
  exact h _ c hc hk b c' hb

/-- A turn of a loop goes on with tokens that belong to the new value together with those of the old one. -/
def Grown (P : List Token → α → Prop) (a : α) (v : List Token) (o : Option α) : Prop :=
  ∀ u, P u a → match o with
    | none => v = []
    | some b => P (u ++ v) b

private theorem yields_iterate {step : α → Parse (Option α)} {P : List Token → α → Prop}
    (h : ∀ a, Yields k (step a) (Grown P a)) (turns : List Token) :
    ∀ a, Yields k (iterate step turns a) fun v b => ∀ u, P u a → P (u ++ v) b := by
  induction turns with
  | nil => exact fun a => yields_cutOff fun u hu => by simpa using hu
  | cons t turns ih =>
    intro a
    unfold iterate
    refine .bind (h a) fun o => ?_
    cases o with
    | none =>
      refine .pure fun v hv u hu => ?_
      obtain rfl : v = [] := hv u hu
      simpa using hu
    | some b =>
      refine (ih b).weaken fun v d hd w hw u hu => ?_
      rw [← List.append_assoc]
      exact hd (u ++ w) (hw u hu)

theorem yields_extend {p : Parse α} {step : α → Parse (Option α)} {P : List Token → α → Prop} (hp : Yields k p P)
    (h : ∀ a, Yields k (step a) (Grown P a)) : Yields k (p >>= fun a => extend a step) P :=
  .bind hp fun a => yields_withTurns fun turns => yields_iterate h turns a

/-- The tokens of values with a comma before each. -/
inductive Tail (P : List Token → α → Prop) : List Token → List α → Prop where
  | nil : Tail P [] []
  | cons {t : Token} {u us : List Token} {a : α} {l : List α} (ht : t.kind = .symbol .comma) (h : P u a)
      (hs : Tail P us l) : Tail P (t :: (u ++ us)) (a :: l)

/-- Without a token there is no cursor to start from. -/
theorem Yields.zero {p : Parse α} {P : List Token → α → Prop} : Yields 0 p P :=
  fun _ hc hk => absurd hk (Nat.not_le.2 hc.length_pos)

private theorem yields_commaItem {item : Parse α} {P : List Token → α → Prop} (h : Yields k item P) :
    Yields k (do if ← Parse.accept (.symbol .comma) then return some (← item) else return none)
      fun v o => match o with
        | none => v = []
        | some a => ∃ t u, v = t :: u ∧ t.kind = .symbol .comma ∧ P u a := by
  cases k with
  | zero => exact .zero
  | succ k =>
    refine .accept nofun (.bind (h.mono (Nat.le_succ k)) fun a => .pure ?_) (.pure rfl)
    intro u hu t ht
    exact ⟨t, u, by simp, ht, hu⟩

private theorem yields_tail {item : Parse α} {P : List Token → α → Prop} (h : Yields k item P) (turns : List Token) :
    Yields k
      (many (do if ← Parse.accept (.symbol .comma) then return some (← item) else return none) turns) (Tail P) := by
  induction turns with
  | nil => exact yields_cutOff .nil
  | cons u turns ih =>
    unfold many
    refine .bind (yields_commaItem h) fun o => ?_
    cases o with
    | none => exact .pure fun v hv => by subst hv; exact .nil
    | some a =>
      refine .bind ih fun l => .pure ?_
      rintro us hus w ⟨t, u, rfl, ht, hu⟩
      simpa using Tail.cons ht hu hus

theorem yields_commaSeparated {item : Parse α} {P : List Token → α → Prop} (h : Yields k item P) :
    Yields k (commaSeparated item) fun us l => ∃ u v a l', us = u ++ v ∧ l = a :: l' ∧ P u a ∧ Tail P v l' := by
  unfold commaSeparated repeated
  refine .bind h fun a => .bind (yields_withTurns (yields_tail h)) fun l => .pure ?_
  intro v hv u hu
  exact ⟨u, v, a, l, by simp, rfl, hu, hv⟩

end Loops

end Parse

end ObjScript
