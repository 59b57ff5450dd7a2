import ObjScript.Parser.Program

/-!
# What a parser does to a cursor

`Reads moves k p q P` speaks of two parsers at once.  From every cursor with at most `k` tokens left, the
last of which is the only end token, `p` and `q` do the same.  They move forward only and an error, once
noted, stays; a new one has the place of a token that was read over.  The value satisfies `P`, and for
values with `moves` a token was read or an error noted.  The only thing that stops them is a number without
a value, and no bound cuts them off.

The two parsers are one rule with two different parsers for its parts, so that `Reads` also says that the
rule looks no deeper than `k` tokens allow.  Here stand the basic parsers, sequences, choices and loops;
everything else follows the text of the rules.

A loop ends by itself because each of its turns leaves less to do: `Cursor.left` counts the tokens that are
still to be read and the error that may still be noted, and `Turns` says that a turn either gives nothing or
lowers it.  With as many turns as there is left to do, more of them make no difference (`readsAt_many`).
-/

namespace ObjScript

/-- The end token is the last token and the only one of its kind. -/
inductive Ended : List Token → Prop where
  | last {t : Token} (h : t.kind = .eof) : Ended [t]
  | more {t : Token} {rest : List Token} (h : t.kind ≠ .eof) (hr : Ended rest) : Ended (t :: rest)

theorem Ended.length_pos {ts : List Token} (h : Ended ts) : 0 < ts.length := by
  cases h <;> simp

/-- The number is the text of a number token and has no value. -/
def Unreadable (ts : List Token) (b : Number.BadNumeral) : Prop :=
  ∃ t ∈ ts, t.kind = .number ∧ t.text = b.text ∧ Number.read? t.text = none

private theorem Unreadable.mono {ts us : List Token} {b : Number.BadNumeral} (h : Unreadable ts b) (hs : ts <:+ us) :
    Unreadable us b := by
  obtain ⟨t, ht, hb⟩ := h
  exact ⟨t, hs.subset ht, hb⟩

namespace Cursor

/-- `c'` lies at or behind `c`.  A new error has the place of a token from `c` to `c'`. -/
structure Behind (c c' : Cursor) : Prop where
  suffix : c'.rest <:+ c.rest
  ended : Ended c'.rest
  error : c'.error? = c.error? ∨
    c.error? = none ∧ ∃ e t ts, c'.error? = some e ∧ e.pos = t.pos ∧ t :: ts <:+ c.rest ∧ c'.rest <:+ t :: ts

/-- The parser comes from `c` to `c'`, and no bound cuts it off on the way. -/
structure Later (c c' : Cursor) : Prop extends Behind c c' where
  unfinished : c'.unfinished = c.unfinished

/-- From `c` to `c'` a token was read, or an error has been noted. -/
def Past (c c' : Cursor) : Prop :=
  c'.rest.length < c.rest.length ∨ c'.error?.isSome

theorem Behind.refl {c : Cursor} (h : Ended c.rest) : c.Behind c :=
  ⟨List.suffix_refl _, h, .inl rfl⟩

theorem Later.refl {c : Cursor} (h : Ended c.rest) : c.Later c :=
  ⟨.refl h, rfl⟩

theorem Behind.length_le {c c' : Cursor} (h : c.Behind c') : c'.rest.length ≤ c.rest.length :=
  h.suffix.length_le

theorem Behind.trans {c₁ c₂ c₃ : Cursor} (h : c₁.Behind c₂) (h' : c₂.Behind c₃) : c₁.Behind c₃ := by
  refine ⟨h'.suffix.trans h.suffix, h'.ended, ?_⟩
  rcases h'.error with he' | ⟨hn, e, t, ts, he, hp, ht, hr⟩
  · rcases h.error with he | ⟨hn, e, t, ts, he, hp, ht, hr⟩
    · exact .inl (he'.trans he)
    · exact .inr ⟨hn, e, t, ts, he'.trans he, hp, ht, h'.suffix.trans hr⟩
  · have hn' : c₁.error? = none := by
      rcases h.error with he' | ⟨_, e', _, _, he', _⟩
      · rw [← he', hn]
      · rw [hn] at he'; cases he'
    exact .inr ⟨hn', e, t, ts, he, hp, ht.trans h.suffix, hr⟩

theorem Later.trans {c₁ c₂ c₃ : Cursor} (h : c₁.Later c₂) (h' : c₂.Later c₃) : c₁.Later c₃ :=
  ⟨h.toBehind.trans h'.toBehind, h'.unfinished.trans h.unfinished⟩

theorem Behind.isSome {c c' : Cursor} (h : c.Behind c') (he : c.error?.isSome) : c'.error?.isSome := by
  rcases h.error with h | ⟨hn, _⟩
  · rwa [h]
  · simp [hn] at he

private theorem Past.behind {c₁ c₂ c₃ : Cursor} (h : c₁.Past c₂) (h' : c₂.Behind c₃) : c₁.Past c₃ := by
  rcases h with h | h
  · exact .inl (Nat.lt_of_le_of_lt h'.length_le h)
  · exact .inr (h'.isSome h)

private theorem Behind.past {c₁ c₂ c₃ : Cursor} (h : c₁.Behind c₂) (h' : c₂.Past c₃) : c₁.Past c₃ := by
  rcases h' with h' | h'
  · exact .inl (Nat.lt_of_lt_of_le h' h.length_le)
  · exact .inr h'

/-- What is left to do: the tokens that are still to be read, and an error that may still be noted. -/
def left (c : Cursor) : Nat :=
  c.rest.length + if c.error?.isSome then 0 else 1

theorem left_pos {c : Cursor} (h : Ended c.rest) : 0 < c.left :=
  Nat.lt_of_lt_of_le h.length_pos (Nat.le_add_right _ _)

/-- There is a turn for all that is left to do. -/
theorem left_le (c : Cursor) : c.left ≤ (c.current :: c.rest).length := by
  unfold left
  rw [List.length_cons]
  split <;> omega

private theorem Behind.left_lt_of_read {c c' : Cursor} (h : c.Behind c') (hlt : c'.rest.length < c.rest.length) :
    c'.left < c.left := by
  unfold left
  by_cases he : c.error?.isSome = true
  · simp only [he, h.isSome he, ↓reduceIte]
    exact hlt
  · rw [if_neg he]
    split <;> omega

/-- Before an error every step forward leaves less to do. -/
theorem Behind.left_lt_of_past {c c' : Cursor} (h : c.Behind c') (he : c.error? = none) (hp : c.Past c') :
    c'.left < c.left := by
  rcases hp with hlt | herr
  · exact h.left_lt_of_read hlt
  · have hle := h.length_le
    unfold left
    rw [if_pos herr, he, if_neg nofun]
    omega

theorem rest_ne_nil {c : Cursor} (h : Ended c.rest) : c.rest ≠ [] :=
  List.ne_nil_of_length_pos h.length_pos

/-- From `c` to `c'` a number without a value stopped the parser, and no bound cut it off before. -/
structure Stops (c : Cursor) (b : Number.BadNumeral) (c' : Cursor) : Prop where
  suffix : c'.rest <:+ c.rest
  unfinished : c'.unfinished = c.unfinished
  unreadable : Unreadable c.rest b

theorem Later.stops {c₁ c₂ c₃ : Cursor} {b : Number.BadNumeral} (h : c₁.Later c₂) (h' : c₂.Stops b c₃) :
    c₁.Stops b c₃ :=
  ⟨h'.suffix.trans h.suffix, h'.unfinished.trans h.unfinished, h'.unreadable.mono h.suffix⟩

/-- A token that is not the end token is followed by others. -/
theorem rest_eq_cons {c : Cursor} (h : Ended c.rest) (hk : c.current.kind ≠ .eof) :
    c.rest = c.current :: c.advance.rest ∧ Ended c.advance.rest := by
  unfold advance atEnd Token.is
  simp only [hk, decide_false, Bool.false_eq_true, ↓reduceIte]
  unfold current at hk ⊢
  generalize c.rest = ts at *
  cases h with
  | last h => exact absurd h hk
  | more _ hr => exact ⟨rfl, hr⟩

@[simp] theorem advance_error? (c : Cursor) : c.advance.error? = c.error? := by
  unfold advance; split <;> rfl

@[simp] theorem advance_unfinished (c : Cursor) : c.advance.unfinished = c.unfinished := by
  unfold advance; split <;> rfl

/-- Moving past a token that is not the end token. -/
theorem later_advance {c : Cursor} (h : Ended c.rest) (hk : c.current.kind ≠ .eof) :
    c.Later c.advance ∧ c.advance.rest.length < c.rest.length := by
  obtain ⟨hr, he⟩ := rest_eq_cons h hk
  refine ⟨⟨⟨⟨[c.current], hr.symm⟩, he, .inl c.advance_error?⟩, c.advance_unfinished⟩, ?_⟩
  have hl := congrArg List.length hr
  rw [List.length_cons] at hl
  omega

@[simp] theorem fail_rest (c : Cursor) (fault : SyntaxFault) : (c.fail fault).rest = c.rest := by
  unfold fail; split <;> rfl

@[simp] theorem fail_unfinished (c : Cursor) (fault : SyntaxFault) : (c.fail fault).unfinished = c.unfinished := by
  unfold fail; split <;> rfl

theorem fail_isSome (c : Cursor) (fault : SyntaxFault) : (c.fail fault).error?.isSome := by
  unfold fail; split <;> simp_all

/-- Noting an error. -/
theorem later_fail {c : Cursor} (h : Ended c.rest) (fault : SyntaxFault) : c.Later (c.fail fault) := by
  refine ⟨⟨by simp, by simpa using h, ?_⟩, c.fail_unfinished fault⟩
  unfold fail
  split
  · exact .inl rfl
  · rename_i hn
    obtain ⟨t, ts, hts⟩ := List.exists_cons_of_ne_nil (rest_ne_nil h)
    refine .inr ⟨hn, _, t, ts, rfl, ?_, ?_, ?_⟩
    · simp [current, hts]
    · exact hts ▸ List.suffix_refl _
    · simp [hts]

end Cursor

namespace Parse

variable {α β : Type}

/-- What a parser makes of a cursor: its value, or the number that stopped it, and the cursor then. -/
def result (p : Parse α) (c : Cursor) : Except Number.BadNumeral α × Cursor :=
  p.run.run c

@[simp] theorem result_pure (a : α) (c : Cursor) : (pure a : Parse α).result c = (.ok a, c) := rfl

theorem result_bind (p : Parse α) (f : α → Parse β) (c : Cursor) :
    (p >>= f).result c =
      match p.result c with
      | (.ok a, c') => (f a).result c'
      | (.error b, c') => (.error b, c') := by
  unfold result
  rw [ExceptT.run_bind, StateT.run_bind]
  rcases StateT.run p.run c with ⟨a | a, c'⟩
  · rfl
  · rfl

theorem result_bind_ok {p : Parse α} {f : α → Parse β} {c c' : Cursor} {a : α} (h : p.result c = (.ok a, c')) :
    (p >>= f).result c = (f a).result c' := by
  rw [result_bind, h]

@[simp] theorem result_get (c : Cursor) : (get : Parse Cursor).result c = (.ok c, c) := rfl

@[simp] theorem result_current (c : Cursor) : current.result c = (.ok c.current, c) := rfl

@[simp] theorem result_advance (c : Cursor) : advance.result c = (.ok c.current, c.advance) := rfl

@[simp] theorem result_check (kind : Kind) (c : Cursor) :
    (check kind).result c = (.ok (c.current.is kind), c) := rfl

@[simp] theorem result_atEnd (c : Cursor) : atEnd.result c = (.ok c.atEnd, c) := rfl

@[simp] theorem result_hadError (c : Cursor) : hadError.result c = (.ok c.error?.isSome, c) := rfl

@[simp] theorem result_turns (c : Cursor) : turns.result c = (.ok (c.current :: c.rest), c) := rfl

@[simp] theorem result_fail (fault : SyntaxFault) (c : Cursor) :
    (fail fault).result c = (.ok (), c.fail fault) := rfl

theorem result_opensBlockType (c : Cursor) :
    opensBlockType.result c = (.ok (c.current.is (.symbol .lpar) && c.second.is (.symbol .caret)), c) := rfl

theorem result_accept? (p : Kind → Bool) (c : Cursor) :
    (accept? p).result c =
      if p c.current.kind then (.ok (some c.current), c.advance) else (.ok none, c) := by
  unfold accept?
  rw [result_bind_ok (result_current c)]
  split
  · rw [result_bind_ok (result_advance c), result_pure]
  · rfl

theorem result_accept (kind : Kind) (c : Cursor) :
    (accept kind).result c = if c.current.is kind then (.ok true, c.advance) else (.ok false, c) := by
  unfold accept
  rw [result_bind, result_accept?]
  by_cases h : c.current.kind = kind
  · simp [h, Token.is]
  · simp [h, Token.is]

private theorem result_acceptThen (kind : Kind) (p q : Parse α) (c : Cursor) :
    (accept kind >>= fun b => if b = true then p else q).result c =
      if c.current.is kind then (advance >>= fun _ => p).result c else q.result c := by
  rw [result_bind, result_accept]
  cases c.current.is kind <;> rfl

theorem result_expectOr (kinds : List Kind) (fault : Kind → SyntaxFault) (c : Cursor) :
    (expectOr kinds fault).result c =
      if kinds.contains c.current.kind then (.ok c.current, c.advance)
      else (.ok (placeholder c.current.pos), c.fail (fault c.current.kind)) := by
  unfold expectOr
  rw [result_bind, result_accept?]
  by_cases h : kinds.contains c.current.kind = true
  · simp only [h, ↓reduceIte, result_pure]
  · simp only [h, ↓reduceIte, Bool.false_eq_true, result_bind_ok (result_current c),
      result_bind_ok (result_fail _ c), result_pure]

/-- `p` and `q` do the same from `c`, as described at the top of this file. -/
def ReadsAt (moves : α → Prop) (c : Cursor) (p q : Parse α) (P : α → Prop) : Prop :=
  q.result c = p.result c ∧
    ((∃ a c', p.result c = (.ok a, c') ∧ c.Later c' ∧ (moves a → c.Past c') ∧ P a) ∨
      ∃ b c', p.result c = (.error b, c') ∧ c.Stops b c')

/-- `p` and `q` do the same from every cursor with at most `k` tokens left. -/
def Reads (moves : α → Prop) (k : Nat) (p q : Parse α) (P : α → Prop) : Prop :=
  ∀ c : Cursor, Ended c.rest → c.rest.length ≤ k → ReadsAt moves c p q P

/-- Any value. -/
abbrev Any (_ : α) : Prop := True

/-- No value. -/
abbrev Never (_ : α) : Prop := False

/-- The value, if there is one, satisfies `P`. -/
def IfGiven (P : α → Prop) : Option α → Prop
  | none => True
  | some a => P a

section Sequences

variable {moves moves' : α → Prop} {k j : Nat} {c : Cursor} {p q : Parse α} {P P' : α → Prop}
variable {moves₂ : β → Prop} {f f' : α → Parse β} {Q : β → Prop}

theorem ReadsAt.weaken (h : ReadsAt moves c p q P) (hm : ∀ a, moves' a → moves a) (hP : ∀ a, P a → P' a) :
    ReadsAt moves' c p q P' := by
  refine ⟨h.1, ?_⟩
  rcases h.2 with ⟨a, c', ha, hl, hp, hPa⟩ | hb
  · exact .inl ⟨a, c', ha, hl, fun h => hp (hm a h), hP a hPa⟩
  · exact .inr hb

theorem Reads.weaken (h : Reads moves k p q P) (hm : ∀ a, moves' a → moves a) (hP : ∀ a, P a → P' a) :
    Reads moves' k p q P' :=
  fun c hc hk => (h c hc hk).weaken hm hP

/-- A parser that is known to move may be used where nothing is asked for. -/
theorem Reads.never (h : Reads moves k p q P) : Reads Never k p q P :=
  h.weaken (fun _ h => h.elim) fun _ h => h

theorem Reads.mono (h : Reads moves k p q P) (hj : j ≤ k) : Reads moves j p q P :=
  fun c hc hk => h c hc (Nat.le_trans hk hj)

theorem ReadsAt.pure (hc : Ended c.rest) {a : α} (hm : ¬ moves a) (hP : P a) :
    ReadsAt moves c (pure a) (pure a) P :=
  ⟨rfl, .inl ⟨a, c, rfl, .refl hc, fun h => (hm h).elim, hP⟩⟩

theorem Reads.pure {a : α} (hP : P a) : Reads Never k (Pure.pure a) (Pure.pure a) P :=
  fun _ hc _ => .pure hc id hP

/-- Nothing is read where nothing is given. -/
theorem Reads.absent {P : Option α → Prop} (hP : P none) :
    Reads (fun o => o.isSome = true) k (Pure.pure none) (Pure.pure none) P :=
  fun _ hc _ => .pure hc nofun hP

/-- One parser after the other.  The second one starts where the first one ends. -/
private theorem ReadsAt.bindAfter (h : ReadsAt moves c p q P)
    (hf : ∀ a c', p.result c = (.ok a, c') → c.Later c' → (moves a → c.Past c') → P a →
      ReadsAt (fun b => moves₂ b ∧ ¬ c.Past c') c' (f a) (f' a) Q) :
    ReadsAt moves₂ c (p >>= f) (q >>= f') Q := by
  unfold ReadsAt
  rw [result_bind, result_bind, h.1]
  rcases h.2 with ⟨a, c₁, ha, hl, hp, hPa⟩ | ⟨b, c₁, hb, hs⟩
  · obtain ⟨heq, hout⟩ := hf a c₁ ha hl hp hPa
    rw [ha]
    refine ⟨heq, ?_⟩
    rcases hout with ⟨b, c₂, hb, hl', hp', hQ⟩ | ⟨b, c₂, hb, hs⟩
    · refine .inl ⟨b, c₂, hb, hl.trans hl', fun hm => ?_, hQ⟩
      by_cases hpast : c.Past c₁
      · exact hpast.behind hl'.toBehind
      · exact hl.past (hp' ⟨hm, hpast⟩)
    · exact .inr ⟨b, c₂, hb, hl.stops hs⟩
  · rw [hb]
    exact ⟨rfl, .inr ⟨b, c₁, rfl, hs⟩⟩

/-- One parser after the other.  The second one starts at a later cursor. -/
private theorem ReadsAt.bind (h : ReadsAt moves c p q P)
    (hf : ∀ a c', c.Later c' → (moves a → c.Past c') → P a →
      ReadsAt (fun b => moves₂ b ∧ ¬ c.Past c') c' (f a) (f' a) Q) :
    ReadsAt moves₂ c (p >>= f) (q >>= f') Q :=
  h.bindAfter fun a c' _ => hf a c'

/-- A sequence whose second parser does what is asked for. -/
theorem Reads.bind (h : Reads moves k p q P) (hf : ∀ a, P a → Reads moves₂ k (f a) (f' a) Q) :
    Reads moves₂ k (p >>= f) (q >>= f') Q := by
  intro c hc hk
  refine (h c hc hk).bind fun a c' hl _ hP => ?_
  exact (hf a hP c' hl.ended (Nat.le_trans hl.length_le hk)).weaken (fun _ h => h.1) fun _ h => h

/-- A sequence whose first parser moves. -/
theorem Reads.bindMoved (h : Reads Any k p q P) (hf : ∀ a, P a → Reads Never k (f a) (f' a) Q) :
    Reads moves₂ k (p >>= f) (q >>= f') Q := by
  intro c hc hk
  refine (h c hc hk).bind fun a c' hl hpast hP => ?_
  exact (hf a hP c' hl.ended (Nat.le_trans hl.length_le hk)).weaken
    (fun _ h => h.2 (hpast trivial)) fun _ h => h

/-- A parser that looks at the cursor first. -/
theorem Reads.look {F F' : Cursor → Parse β} (h : ∀ c, Reads moves₂ k (F c) (F' c) Q) :
    Reads moves₂ k (get >>= F) (get >>= F') Q := by
  intro c hc hk
  unfold ReadsAt
  rw [result_bind_ok (result_get c), result_bind_ok (result_get c)]
  exact h c c hc hk

/-- A parser that looks at the next token first. -/
theorem Reads.peek {F F' : Token → Parse β}
    (h : ∀ c, Ended c.rest → c.rest.length ≤ k → ReadsAt moves₂ c (F c.current) (F' c.current) Q) :
    Reads moves₂ k (current >>= F) (current >>= F') Q := by
  intro c hc hk
  obtain ⟨heq, hout⟩ := h c hc hk
  unfold ReadsAt
  rw [result_bind_ok (result_current c), result_bind_ok (result_current c)]
  exact ⟨heq, hout⟩

/-- After a token that is not the end token fewer tokens are left. -/
theorem ReadsAt.advance {F F' : Token → Parse β} (hc : Ended c.rest) (hk : c.rest.length ≤ j + 1)
    (ht : c.current.kind ≠ .eof) (h : Reads Never j (F c.current) (F' c.current) Q) :
    ReadsAt moves₂ c (Parse.advance >>= F) (Parse.advance >>= F') Q := by
  obtain ⟨hl, hlt⟩ := Cursor.later_advance hc ht
  obtain ⟨heq, hout⟩ := h c.advance hl.ended (by omega)
  unfold ReadsAt
  rw [result_bind_ok (result_advance c), result_bind_ok (result_advance c)]
  refine ⟨heq, ?_⟩
  rcases hout with ⟨b, c', hb, hl', _, hQ⟩ | ⟨b, c', hb, hs⟩
  · exact .inl ⟨b, c', hb, hl.trans hl', fun _ => Cursor.Past.behind (.inl hlt) hl'.toBehind, hQ⟩
  · exact .inr ⟨b, c', hb, hl.stops hs⟩

end Sequences

section Tokens

variable {moves : β → Prop} {k j : Nat} {Q : β → Prop}

theorem reads_fail (fault : SyntaxFault) : Reads Any k (fail fault) (fail fault) Any :=
  fun c hc _ => ⟨rfl, .inl ⟨(), _, rfl, Cursor.later_fail hc fault, fun _ => .inr (c.fail_isSome fault), trivial⟩⟩

theorem reads_check (kind : Kind) : Reads Never k (check kind) (check kind) Any :=
  fun c hc _ => ⟨rfl, .inl ⟨_, c, rfl, .refl hc, False.elim, trivial⟩⟩

theorem reads_atEnd : Reads Never k atEnd atEnd Any :=
  fun c hc _ => ⟨rfl, .inl ⟨_, c, rfl, .refl hc, False.elim, trivial⟩⟩

theorem reads_hadError : Reads Never k hadError hadError Any :=
  fun c hc _ => ⟨rfl, .inl ⟨_, c, rfl, .refl hc, False.elim, trivial⟩⟩

/-- What comes after a token that has been read may be less deep. -/
theorem Reads.acceptOption {ok : Kind → Bool} {F F' : Option Token → Parse β} (hk : k ≤ j + 1)
    (hs : ∀ t, Reads Never j (F (some t)) (F' (some t)) Q) (hn : Reads moves k (F none) (F' none) Q)
    (hok : ok .eof = false) :
    Reads moves k (accept? ok >>= F) (accept? ok >>= F') Q := by
  intro c hc hck
  unfold ReadsAt
  by_cases h : ok c.current.kind = true
  · have ht : c.current.kind ≠ .eof := by
      intro he; rw [he, hok] at h; cases h
    have hr : (accept? ok).result c = (.ok (some c.current), c.advance) := by
      rw [result_accept?, if_pos h]
    have hadv : ReadsAt moves c (advance >>= fun t => F (some t)) (advance >>= fun t => F' (some t)) Q :=
      .advance hc (Nat.le_trans hck hk) ht (hs c.current)
    unfold ReadsAt at hadv
    rw [result_bind_ok (result_advance c), result_bind_ok (result_advance c)] at hadv
    rw [result_bind_ok hr, result_bind_ok hr]
    exact hadv
  · have hr : (accept? ok).result c = (.ok none, c) := by
      rw [result_accept?, if_neg h]
    rw [result_bind_ok hr, result_bind_ok hr]
    exact hn c hc hck

theorem reads_accept? {ok : Kind → Bool} (hok : ok .eof = false) :
    Reads (fun o : Option Token => o.isSome = true) k (accept? ok) (accept? ok) Any := by
  have h : Reads (fun o : Option Token => o.isSome = true) k (accept? ok >>= Pure.pure)
      (accept? ok >>= Pure.pure) Any :=
    .acceptOption (j := k) (by omega) (fun t => .pure trivial) (.absent trivial) hok
  rwa [bind_pure] at h

/-- A choice that depends on the next token. -/
theorem Reads.accept {kind : Kind} {A A' B B' : Parse β} (hkind : kind ≠ .eof) (hk : k ≤ j + 1)
    (hA : Reads Never j A A' Q) (hB : Reads moves k B B' Q) :
    Reads moves k (accept kind >>= fun b => if b = true then A else B)
      (accept kind >>= fun b => if b = true then A' else B') Q := by
  unfold Parse.accept
  rw [bind_assoc, bind_assoc]
  refine .acceptOption hk (fun t => ?_) ?_ (by simpa using hkind.symm)
  · simpa using hA
  · simpa using hB

/-- A token that may be there. -/
theorem reads_accept {kind : Kind} (hkind : kind ≠ .eof) :
    Reads Never k (Parse.accept kind) (Parse.accept kind) Any := by
  unfold Parse.accept
  exact .bind (reads_accept? (by simpa using hkind.symm)).never fun _ _ => .pure trivial

/-- A token that has to be there. -/
theorem reads_expectOr {kinds : List Kind} {fault : Kind → SyntaxFault} (hk : kinds.contains .eof = false) :
    Reads Any k (expectOr kinds fault) (expectOr kinds fault) Any := by
  unfold expectOr
  refine .acceptOption (j := k) (by omega) (fun t => .pure trivial) ?_ hk
  refine .peek fun c hc hck => ?_
  exact Reads.bindMoved (reads_fail _) (fun _ _ => .pure trivial) c hc hck

theorem reads_expect {kind : Kind} (hk : kind ≠ .eof) :
    Reads Any k (expect kind) (expect kind) Any :=
  reads_expectOr (by simpa using hk.symm)

end Tokens

section Turns

variable {k j : Nat} {c : Cursor} {item item' : Parse (Option α)} {P : α → Prop}

/-- `item` and `item'` do the same from `c`, and if they give something, then less is left to do. -/
def TurnsAt (c : Cursor) (item item' : Parse (Option α)) (P : α → Prop) : Prop :=
  ReadsAt Never c item item' (IfGiven P) ∧ ∀ a c', item.result c = (.ok (some a), c') → c'.left < c.left

/-- A turn of a loop, as described at the top of this file. -/
def Turns (k : Nat) (item item' : Parse (Option α)) (P : α → Prop) : Prop :=
  ∀ c : Cursor, Ended c.rest → c.rest.length ≤ k → TurnsAt c item item' P

/-- Here the loop ends. -/
theorem Turns.absent : Turns k (Pure.pure none) (Pure.pure none) P := by
  refine fun c hc hk => ⟨.pure hc id trivial, ?_⟩
  rintro _ _ ⟨⟩

/-- A turn that looks at the next token first. -/
theorem Turns.peek {F F' : Token → Parse (Option α)}
    (h : ∀ c, Ended c.rest → c.rest.length ≤ k → TurnsAt c (F c.current) (F' c.current) P) :
    Turns k (current >>= F) (current >>= F') P :=
  h

/-- A turn that reads a token. -/
theorem TurnsAt.advance {F F' : Token → Parse (Option α)} (hc : Ended c.rest) (hk : c.rest.length ≤ j + 1)
    (ht : c.current.kind ≠ .eof) (h : Reads Never j (F c.current) (F' c.current) (IfGiven P)) :
    TurnsAt c (Parse.advance >>= F) (Parse.advance >>= F') P := by
  refine ⟨.advance hc hk ht h, fun a c' ha => ?_⟩
  obtain ⟨hl, hlt⟩ := Cursor.later_advance hc ht
  rw [result_bind_ok (result_advance c)] at ha
  rcases (h c.advance hl.ended (by omega)).2 with ⟨o, c₁, ho, hl', -⟩ | ⟨b, c₁, hb, -⟩
  · obtain rfl : c₁ = c' := congrArg Prod.snd (ho.symm.trans ha)
    exact (hl.trans hl').left_lt_of_read (Nat.lt_of_le_of_lt hl'.length_le hlt)
  · cases hb.symm.trans ha

/-- A turn that reads a token if it has the right kind. -/
theorem Turns.accept {kind : Kind} {A A' B B' : Parse (Option α)} (hkind : kind ≠ .eof) (hk : k ≤ j + 1)
    (hA : Reads Never j A A' (IfGiven P)) (hB : Turns k B B' P) :
    Turns k (accept kind >>= fun b => if b = true then A else B)
      (accept kind >>= fun b => if b = true then A' else B') P := by
  intro c hc hck
  unfold TurnsAt ReadsAt
  rw [result_acceptThen, result_acceptThen]
  by_cases h : c.current.is kind = true
  · simp only [h, ↓reduceIte]
    have ht : c.current.kind ≠ .eof := fun he => hkind ((of_decide_eq_true h).symm.trans he)
    exact TurnsAt.advance hc (Nat.le_trans hck hk) ht hA
  · simp only [h, Bool.false_eq_true, ↓reduceIte]
    exact hB c hc hck

/-- A turn that is not begun after an error. -/
theorem Turns.guarded (h : Reads (fun o => o.isSome = true) k item item' (IfGiven P))
    (hstop : ∀ c : Cursor, c.error?.isSome = true → item.result c = (.ok none, c)) : Turns k item item' P := by
  refine fun c hc hk => ⟨h.never c hc hk, fun a c' ha => ?_⟩
  cases he : c.error? with
  | some e => cases (hstop c (by rw [he]; rfl)).symm.trans ha
  | none =>
    rcases (h c hc hk).2 with ⟨o, c₁, ho, hl, hp, -⟩ | ⟨b, c₁, hb, -⟩
    · obtain ⟨ho', rfl⟩ := Prod.mk.inj (ho.symm.trans ha)
      obtain rfl : o = some a := Except.ok.inj ho'
      exact hl.left_lt_of_past he (hp rfl)
    · cases hb.symm.trans ha

end Turns

section Loops

variable {k : Nat} {item item' : Parse (Option α)} {P : α → Prop}

/-- The values of a loop.  Each turn that gives a value leaves less to do, so that a turn for all that is left
is enough, and further turns change nothing. -/
theorem readsAt_many (h : Turns k item item' P) (turns : List Token) : ∀ (turns' : List Token) (c : Cursor),
    Ended c.rest → c.rest.length ≤ k → c.left ≤ turns.length → c.left ≤ turns'.length →
    ReadsAt Never c (many item turns) (many item' turns') fun l => ∀ a ∈ l, P a := by
  induction turns with
  | nil => exact fun _ c hc _ hturns _ => absurd hturns (Nat.not_le.2 (Cursor.left_pos hc))
  | cons t turns ih =>
    intro turns' c hc hk hturns hturns'
    obtain ⟨t', turns', rfl⟩ : ∃ t' us, turns' = t' :: us :=
      List.exists_cons_of_length_pos (Nat.lt_of_lt_of_le (Cursor.left_pos hc) hturns')
    obtain ⟨hitem, hleft⟩ := h c hc hk
    unfold many
    -- the turn itself, and then the others from where it leads
    refine hitem.bindAfter fun o c' ho hl _ hP => ?_
    cases o with
    | none => exact .pure hl.ended (·.1) (List.forall_mem_nil _)
    | some a =>
      have hlt := hleft a c' ho
      simp only [List.length_cons] at hturns hturns'
      have hothers := ih turns' c' hl.ended (Nat.le_trans hl.length_le hk) (by omega) (by omega)
      refine hothers.bind fun l c'' hl' _ hl => .pure hl'.ended (·.1.1) (List.forall_mem_cons.2 ⟨hP, hl⟩)

theorem reads_repeated (h : Turns k item item' P) :
    Reads Never k (repeated item) (repeated item') fun l => ∀ a ∈ l, P a :=
  fun c hc hk => readsAt_many h (c.current :: c.rest) (c.current :: c.rest) c hc hk c.left_le c.left_le

theorem reads_commaSeparated {item item' : Parse α} (h : Reads Never k item item' P) :
    Reads Never k (commaSeparated item) (commaSeparated item') fun l => ∀ a ∈ l, P a := by
  unfold commaSeparated
  refine .bind h fun a ha => .bind (reads_repeated ?_) fun l hl => .pure (List.forall_mem_cons.2 ⟨ha, hl⟩)
  exact .accept (j := k) nofun (by omega) (.bind h fun b hb => .pure hb) .absent

variable {step step' : α → Parse (Option α)}

private theorem readsAt_iterate (h : ∀ a, P a → Turns k (step a) (step' a) P) (turns : List Token) :
    ∀ (turns' : List Token) (a : α) (c : Cursor), P a → Ended c.rest → c.rest.length ≤ k →
      c.left ≤ turns.length → c.left ≤ turns'.length →
      ReadsAt Never c (iterate step turns a) (iterate step' turns' a) P := by
  induction turns with
  | nil => exact fun _ _ c _ hc _ hturns _ => absurd hturns (Nat.not_le.2 (Cursor.left_pos hc))
  | cons t turns ih =>
    intro turns' a c ha hc hk hturns hturns'
    obtain ⟨t', turns', rfl⟩ : ∃ t' us, turns' = t' :: us :=
      List.exists_cons_of_length_pos (Nat.lt_of_lt_of_le (Cursor.left_pos hc) hturns')
    obtain ⟨hstep, hleft⟩ := h a ha c hc hk
    unfold iterate
    refine hstep.bindAfter fun o c' ho hl _ hP => ?_
    cases o with
    | none => exact .pure hl.ended (·.1) ha
    | some b =>
      have hlt := hleft b c' ho
      simp only [List.length_cons] at hturns hturns'
      exact (ih turns' b c' hP hl.ended (Nat.le_trans hl.length_le hk) (by omega) (by omega)).weaken
        (fun _ h => h.1) fun _ h => h

theorem reads_extend {a : α} (ha : P a) (h : ∀ a, P a → Turns k (step a) (step' a) P) :
    Reads Never k (extend a step) (extend a step') P :=
  fun c hc hk => readsAt_iterate h (c.current :: c.rest) (c.current :: c.rest) a c ha hc hk c.left_le c.left_le

end Loops

end Parse

end ObjScript
