import ObjScript.Proofs.Parser.Reading

/-!
# Counting what a parser reads

A tally is kept over the tokens that a parser reads, one after the other.  `Parse.Counts T x p M` says that `p` takes
the count `x` to the one that belongs to its value, as long as no error is noted: an error stays, so that there was
none before if there is none afterwards.  A token that has to be there was then read, and where one was missing
nothing is promised.  Here stand the basic parsers, sequences, choices and loops.
-/

namespace ObjScript

/-- A count over the kinds of tokens; the end token does not count. -/
structure Tally (σ : Type) where
  after : σ → Kind → σ
  after_eof : ∀ x, after x .eof = x

/-- The count after some tokens. -/
def Tally.through {σ : Type} (T : Tally σ) (x : σ) (tokens : List Token) : σ :=
  tokens.foldl (fun x t => T.after x t.kind) x

theorem Tally.through_append {σ : Type} (T : Tally σ) (x : σ) (ts us : List Token) :
    T.through x (ts ++ us) = T.through (T.through x ts) us :=
  List.foldl_append

/-- The count, and whether anything was read. -/
def Tally.noting {σ : Type} (T : Tally σ) : Tally (σ × Bool) where
  after x kind := (T.after x.1 kind, if kind = .eof then x.2 else true)
  after_eof x := by simp [T.after_eof]

private theorem Tally.through_noting {σ : Type} (T : Tally σ) (x : σ) (r : Bool) (ts : List Token) :
    (T.noting.through (x, r) ts).1 = T.through x ts ∧ (r = true → (T.noting.through (x, r) ts).2 = true) := by
  induction ts generalizing x r with
  | nil => exact ⟨rfl, id⟩
  | cons t ts ih =>
    obtain ⟨hcount, hread⟩ := ih (T.after x t.kind) (if t.kind = .eof then r else true)
    refine ⟨hcount, fun hr => hread ?_⟩
    rw [hr, ite_self]

/-- Past a token that is not the end token stands the one that came second. -/
theorem Cursor.current_advance {c : Cursor} (h : Ended c.rest) (hk : c.current.kind ≠ .eof) :
    c.advance.current = c.second := by
  obtain ⟨hrest, hend⟩ := Cursor.rest_eq_cons h hk
  obtain ⟨t, ts, hts⟩ := List.exists_cons_of_ne_nil (Cursor.rest_ne_nil hend)
  have hcurrent : c.advance.current = t := by
    rw [Cursor.current, hts, List.headD_cons]
  rw [hcurrent, Cursor.second, hrest, hts]

namespace Parse

variable {α β σ : Type}

/-- If there is no error after the parser, then there was none before, and the tokens that were read lead from the
count to the one that belongs to the value. -/
def CountsAt (T : Tally σ) (c : Cursor) (x : σ) (p : Parse α) (M : α → σ) : Prop :=
  ∀ a c', p.result c = (.ok a, c') → Ended c'.rest ∧
    (c'.error? = none → c.error? = none ∧ ∃ ts, c.rest = ts ++ c'.rest ∧ T.through x ts = M a)

/-- The parser does so from every cursor. -/
def Counts (T : Tally σ) (x : σ) (p : Parse α) (M : α → σ) : Prop :=
  ∀ c : Cursor, Ended c.rest → CountsAt T c x p M

/-- The parser leads from one count to the other, whatever its value. -/
abbrev Goes (T : Tally σ) (x : σ) (p : Parse α) (y : σ) : Prop :=
  Counts T x p fun _ => y

variable {T : Tally σ} {x y : σ}

section Sequences

variable {c : Cursor} {p : Parse α} {f : α → Parse β} {M : α → σ} {N : β → σ}

/-- A parser that stays where it is. -/
theorem CountsAt.stay (hc : Ended c.rest) {a : α} (h : p.result c = (.ok a, c)) (ha : c.error? = none → x = M a) :
    CountsAt T c x p M := by
  intro a' c' hresult
  rw [h] at hresult
  cases hresult
  exact ⟨hc, fun he => ⟨he, [], rfl, ha he⟩⟩

/-- A parser that leaves an error. -/
theorem CountsAt.failed (h : ∀ a c', p.result c = (.ok a, c') → Ended c'.rest ∧ c'.error?.isSome) :
    CountsAt T c x p M := by
  intro a c' hresult
  obtain ⟨hend, hsome⟩ := h a c' hresult
  refine ⟨hend, fun he => ?_⟩
  rw [he] at hsome
  cases hsome

/-- One parser after the other.  The second one starts where the first one ends. -/
theorem CountsAt.bind (hp : CountsAt T c x p M)
    (hf : ∀ a c₁, p.result c = (.ok a, c₁) → Ended c₁.rest → CountsAt T c₁ (M a) (f a) N) :
    CountsAt T c x (p >>= f) N := by
  intro b c₂ hb
  rw [result_bind] at hb
  split at hb
  · next a c₁ ha =>
    obtain ⟨hend₁, hfirst⟩ := hp a c₁ ha
    obtain ⟨hend₂, hsecond⟩ := hf a c₁ ha hend₁ b c₂ hb
    refine ⟨hend₂, fun he₂ => ?_⟩
    -- no error at the end means that neither parser noted one
    obtain ⟨he₁, us, hus, hM⟩ := hsecond he₂
    obtain ⟨he, ts, hts, hx⟩ := hfirst he₁
    refine ⟨he, ts ++ us, ?_, ?_⟩
    · rw [hts, hus, List.append_assoc]
    · rw [Tally.through_append, hx, hM]
  · cases hb

theorem Counts.bind (hp : Counts T x p M) (hf : ∀ a, Counts T (M a) (f a) N) : Counts T x (p >>= f) N :=
  fun c hc => (hp c hc).bind fun a c₁ _ hc₁ => hf a c₁ hc₁

theorem Counts.pure {a : α} (ha : x = M a) : Counts T x (pure a) M :=
  fun _ hc => .stay hc rfl fun _ => ha

/-- A change of the value alone. -/
theorem Counts.map {h : α → β} (hp : Counts T x p M) (hM : ∀ a, M a = N (h a)) : Counts T x (h <$> p) N := by
  rw [map_eq_pure_bind]
  exact hp.bind fun a => .pure (hM a)

/-- A parser that is stopped. -/
theorem Counts.throw (b : Number.BadNumeral) : Counts T x (throw b) M := by
  rintro c - _ _ ⟨⟩

/-- A parser that only looks first. -/
theorem CountsAt.look {a : α} (hp : p.result c = (.ok a, c)) (h : CountsAt T c x (f a) N) :
    CountsAt T c x (p >>= f) N := by
  intro b c' hb
  rw [result_bind_ok hp] at hb
  exact h b c' hb

/-- A parser that looks at the cursor first. -/
theorem Counts.look {F : Cursor → Parse β} (h : ∀ c, Ended c.rest → CountsAt T c x (F c) N) :
    Counts T x (get >>= F) N :=
  fun c hc => .look (result_get c) (h c hc)

/-- A parser that looks at the next token first. -/
theorem Counts.peek {F : Token → Parse β} (h : ∀ c, Ended c.rest → CountsAt T c x (F c.current) N) :
    Counts T x (current >>= F) N :=
  fun c hc => .look (result_current c) (h c hc)

/-- The token that is read counts. -/
theorem countsAt_advance (hc : Ended c.rest) : CountsAt T c x advance fun _ => T.after x c.current.kind := by
  rintro _ _ ⟨⟩
  -- nothing is read at the end token, and it does not count
  by_cases hk : c.current.kind = .eof
  · have hstay : c.advance = c := by simp [Cursor.advance, Cursor.atEnd, Token.is, hk]
    rw [hstay, hk]
    exact ⟨hc, fun he => ⟨he, [], rfl, (T.after_eof x).symm⟩⟩
  · obtain ⟨hrest, hend⟩ := Cursor.rest_eq_cons hc hk
    refine ⟨hend, fun he => ⟨?_, [c.current], hrest, rfl⟩⟩
    rwa [Cursor.advance_error?] at he

/-- A parser that reads the next token first. -/
theorem CountsAt.advance {F : Token → Parse β} (hc : Ended c.rest) (hy : T.after x c.current.kind = y)
    (hF : ∀ t, Counts T y (F t) N) : CountsAt T c x (Parse.advance >>= F) N := by
  apply (countsAt_advance hc).bind
  intro t c₁ _ hc₁
  rw [hy]
  exact hF t c₁ hc₁

end Sequences

section Noting

variable {c : Cursor} {p : Parse α} {M : α → σ} {N : α → σ × Bool}

/-- Once something was read, this remains so. -/
theorem Counts.noting (h : Counts T x p M) : Counts T.noting (x, true) p fun a => (M a, true) := by
  intro c hc a c' ha
  obtain ⟨hend, hread⟩ := h c hc a c' ha
  refine ⟨hend, fun he => ?_⟩
  obtain ⟨he₀, ts, hts, hx⟩ := hread he
  obtain ⟨hcount, hnoted⟩ := T.through_noting x true ts
  exact ⟨he₀, ts, hts, Prod.ext (hcount.trans hx) (hnoted rfl)⟩

/-- The count does not depend on the note. -/
theorem CountsAt.of_noting {r : Bool} (h : CountsAt T.noting c (x, r) p N) : CountsAt T c x p fun a => (N a).1 := by
  intro a c' ha
  obtain ⟨hend, hread⟩ := h a c' ha
  refine ⟨hend, fun he => ?_⟩
  obtain ⟨he₀, ts, hts, hx⟩ := hread he
  exact ⟨he₀, ts, hts, (T.through_noting x r ts).1.symm.trans (congrArg Prod.fst hx)⟩

/-- Where it is noted that something was read, fewer tokens are left. -/
theorem CountsAt.length_lt (h : CountsAt T.noting c (x, false) p N) {a : α} {c' : Cursor}
    (ha : p.result c = (.ok a, c')) (he : c'.error? = none) (hN : (N a).2 = true) :
    c'.rest.length < c.rest.length := by
  obtain ⟨-, ts, hts, hx⟩ := (h a c' ha).2 he
  have hne : ts ≠ [] := by
    rintro rfl
    have hnone : false = (N a).2 := congrArg Prod.snd hx
    rw [hN] at hnone
    cases hnone
  have hpos := List.length_pos_iff.2 hne
  rw [hts, List.length_append]
  omega

end Noting

section Tokens

theorem goes_current : Goes T x current x :=
  fun _ hc => .stay hc rfl fun _ => rfl

theorem goes_check (kind : Kind) : Goes T x (check kind) x :=
  fun _ hc => .stay hc rfl fun _ => rfl

theorem goes_atEnd : Goes T x atEnd x :=
  fun _ hc => .stay hc rfl fun _ => rfl

theorem goes_hadError : Goes T x hadError x :=
  fun _ hc => .stay hc rfl fun _ => rfl

/-- After a fault no count is promised. -/
theorem goes_fail (fault : SyntaxFault) (y : σ) : Goes T x (fail fault) y := by
  intro c hc
  apply CountsAt.failed
  rintro _ _ ⟨⟩
  exact ⟨by rwa [Cursor.fail_rest], c.fail_isSome fault⟩

/-- A change of the cursor around its tokens and its error. -/
theorem goes_modify {F : Cursor → Cursor} (hrest : ∀ c, (F c).rest = c.rest) (herror : ∀ c, (F c).error? = c.error?) :
    Goes T x (modify F) x := by
  rintro c hc _ _ ⟨⟩
  rw [hrest, herror]
  exact ⟨hc, fun he => ⟨he, [], rfl, rfl⟩⟩

/-- A mark on the cursor does not count. -/
theorem goes_cutOff (a : α) : Goes T x (cutOff a) x := by
  rintro c hc _ _ ⟨⟩
  exact ⟨hc, fun he => ⟨he, [], rfl, rfl⟩⟩

private theorem goes_turns : Goes T x turns x :=
  fun _ hc => .stay hc rfl fun _ => rfl

/-- A token that is read if its kind is right. -/
theorem counts_accept? {ok : Kind → Bool} (h : ∀ kind, ok kind = true → T.after x kind = y) :
    Counts T x (accept? ok) fun o => o.elim x fun _ => y := by
  apply Counts.peek
  intro c hc
  split
  · next hok => exact .advance hc (h _ hok) fun t => .pure rfl
  · exact .stay hc rfl fun _ => rfl

theorem goes_accept? {ok : Kind → Bool} (h : ∀ kind, ok kind = true → T.after x kind = x) :
    Goes T x (accept? ok) x := by
  have hsame : (fun o : Option Token => o.elim x fun _ => x) = fun _ => x := by
    funext o
    cases o <;> rfl
  have haccept := counts_accept? h
  rwa [hsame] at haccept

/-- A choice that depends on the next token. -/
theorem counts_accept {kind : Kind} {A B : Parse β} {N : β → σ} (hA : Counts T (T.after x kind) A N)
    (hB : Counts T x B N) : Counts T x (accept kind >>= fun b => if b = true then A else B) N := by
  intro c hc b c' hb
  rw [result_bind, result_accept] at hb
  by_cases hkind : c.current.is kind = true
  · have hy : T.after x c.current.kind = T.after x kind := by rw [of_decide_eq_true hkind]
    have hadvance : CountsAt T c x (advance >>= fun _ => A) N := .advance hc hy fun _ => hA
    rw [if_pos hkind] at hb
    exact hadvance b c' hb
  · rw [if_neg hkind] at hb
    exact hB c hc b c' hb

/-- A token that may be there. -/
theorem goes_accept {kind : Kind} (h : T.after x kind = x) : Goes T x (accept kind) x := by
  have hkind : ∀ k, decide (k = kind) = true → T.after x k = x := by
    intro k hk
    rw [of_decide_eq_true hk, h]
  apply (goes_accept? hkind).bind
  intro o
  exact .pure rfl

theorem goes_expectOr {kinds : List Kind} {fault : Kind → SyntaxFault} (h : ∀ kind ∈ kinds, T.after x kind = y) :
    Goes T x (expectOr kinds fault) y := by
  have hkinds : ∀ k, kinds.contains k = true → T.after x k = y := fun k hk => h k (List.contains_iff_mem.1 hk)
  unfold expectOr
  apply (counts_accept? hkinds).bind
  intro o
  cases o with
  | some t => exact .pure rfl
  | none =>
    apply goes_current.bind
    intro t
    apply (goes_fail _ y).bind
    intro _
    exact .pure rfl

/-- A token that has to be there. -/
theorem goes_expect {kind : Kind} (h : T.after x kind = y) : Goes T x (expect kind) y :=
  goes_expectOr (List.forall_mem_singleton.2 h)

end Tokens

section Loops

private theorem goes_many {item : Parse (Option α)} (h : Goes T x item x) (turns : List Token) :
    Goes T x (many item turns) x := by
  induction turns with
  | nil => exact goes_cutOff []
  | cons t turns ih =>
    unfold many
    apply h.bind
    intro o
    cases o with
    | none => exact .pure rfl
    | some a =>
      apply ih.bind
      intro l
      exact .pure rfl

theorem goes_repeated {item : Parse (Option α)} (h : Goes T x item x) : Goes T x (repeated item) x :=
  goes_turns.bind (goes_many h)

theorem goes_commaSeparated {item : Parse α} (hcomma : T.after x (.symbol .comma) = x) (h : Goes T x item x) :
    Goes T x (commaSeparated item) x := by
  have hnext : Goes T x (do if ← accept (.symbol .comma) then return some (← item) else return none) x := by
    apply counts_accept
    · rw [hcomma]
      apply h.bind
      intro a
      exact .pure rfl
    · exact .pure rfl
  unfold commaSeparated
  apply h.bind
  intro first
  apply (goes_repeated hnext).bind
  intro others
  exact .pure rfl

private theorem goes_iterate {next : α → Parse (Option α)} (h : ∀ a, Goes T x (next a) x) (turns : List Token) :
    ∀ a, Goes T x (iterate next turns a) x := by
  induction turns with
  | nil => exact goes_cutOff
  | cons t turns ih =>
    intro a
    unfold iterate
    apply (h a).bind
    intro o
    cases o with
    | none => exact .pure rfl
    | some b => exact ih b

theorem goes_extend {next : α → Parse (Option α)} (h : ∀ a, Goes T x (next a) x) (a : α) :
    Goes T x (extend a next) x :=
  goes_turns.bind fun turns => goes_iterate h turns a

end Loops

end Parse

end ObjScript
