import Mathlib.Data.List.Forall2
import ObjScript.Proofs.Token.Tiles
import ObjScript.Session

/-!
# Marking class names

What names the classes of a list (`NamesClass`) is not lost when the names are marked: a place that showed the name of
a class as an identifier is no such place any more, but then the name stands there as a marked one.  So marking
settles at once, and a pass that knows fewer names may come first (`marking_settles`).
-/

namespace ObjScript

/-- The identifier is shown to be the name of a class by what stands beside it. -/
def ShowsClass (before t next : Token) (back : List Token) : Prop :=
  t.kind = .ident ∧
    ((before.kind = .keyword .interface ∨ before.kind = .keyword .implementation) ∨
      next.kind = .symbol .star ∧ ∃ rpar ∈ back.head?, rpar.kind = .symbol .rpar)

/-- Some place of the list, between its first token and its last, shows the name to be the name of a class. -/
def Shown (tokens : List Token) (name : String) : Prop :=
  ∃ front before t next back, tokens = front ++ before :: t :: next :: back ∧ t.text = name ∧
    ShowsClass before t next back

/-- The name is the name of a class in the list, given the names known before. -/
def NamesClass (known : Names) (tokens : List Token) (name : String) : Prop :=
  name ∈ foundationClasses ∨ name ∈ known ∨ (∃ t ∈ tokens, t.kind = .classIdent ∧ t.text = name) ∨ Shown tokens name

/-- The second token is the first, marked if it is an identifier with one of the names. -/
structure Marks (names : String → Prop) (t t' : Token) : Prop where
  text : t'.text = t.text
  pos : t'.pos = t.pos
  other : t.kind ≠ .ident → t'.kind = t.kind
  marked : t.kind = .ident → names t.text → t'.kind = .classIdent
  plain : t.kind = .ident → ¬ names t.text → t'.kind = .ident

/-- Marking the class names of the list, given the names known before, is done in one pass. -/
structure Settles (known : Names) (tokens : List Token) : Prop where
  tokenwise : List.Forall₂ (Marks (NamesClass known tokens)) tokens (markClasses known tokens)
  /-- No name is an identifier here and the name of a class there. -/
  apart : ∀ t ∈ markClasses known tokens, ∀ t' ∈ markClasses known tokens,
    t.kind = .ident → t'.kind = .classIdent → t.text ≠ t'.text
  grows : ∀ name ∈ known, name ∈ classNames known tokens
  learnt : ∀ t ∈ markClasses known tokens, t.kind = .classIdent → t.text ∈ classNames known tokens
  /-- A second pass changes nothing. -/
  again : markClasses (classNames known tokens) (markClasses known tokens) = markClasses known tokens ∧
    ∀ name, name ∈ classNames (classNames known tokens) (markClasses known tokens) ↔ name ∈ classNames known tokens
  /-- A pass that knows no names may come first. -/
  fused : markClasses known (markClasses [] tokens) = markClasses known tokens ∧
    ∀ name, name ∈ classNames known (markClasses [] tokens) ↔ name ∈ classNames known tokens

/-! ### The names of a list -/

private theorem introducesClass_iff (kind : Kind) :
    kind.introducesClass ↔ kind = .keyword .interface ∨ kind = .keyword .implementation := by
  unfold Kind.introducesClass
  split <;> simp_all

private theorem endsPointerCast_cons (next : Token) (back : List Token) :
    endsPointerCast (next :: back) ↔ next.kind = .symbol .star ∧ ∃ rpar ∈ back.head?, rpar.kind = .symbol .rpar := by
  cases back with
  | nil => simp [endsPointerCast]
  | cons rpar back => simp [endsPointerCast, Token.is]

/-- The scanner's look at a place. -/
private theorem showsClass_iff (before t next : Token) (back : List Token) :
    (t.is .ident && (before.kind.introducesClass || endsPointerCast (next :: back))) ↔
      ShowsClass before t next back := by
  rw [Bool.and_eq_true, Bool.or_eq_true, introducesClass_iff, endsPointerCast_cons]
  simp [Token.is, ShowsClass]

private theorem shown_cons (before t next : Token) (back : List Token) (name : String) :
    Shown (before :: t :: next :: back) name ↔
      t.text = name ∧ ShowsClass before t next back ∨ Shown (t :: next :: back) name := by
  constructor
  · rintro ⟨front, before', t', next', back', htokens, hname, hshows⟩
    cases front with
    | nil =>
      cases htokens
      exact .inl ⟨hname, hshows⟩
    | cons first front => exact .inr ⟨front, before', t', next', back', (List.cons.inj htokens).2, hname, hshows⟩
  · rintro (⟨hname, hshows⟩ | ⟨front, before', t', next', back', htokens, hname, hshows⟩)
    · exact ⟨[], before, t, next, back, rfl, hname, hshows⟩
    · exact ⟨before :: front, before', t', next', back', by rw [htokens]; rfl, hname, hshows⟩

private theorem mem_namesInContext (tokens : List Token) (name : String) :
    name ∈ namesInContext tokens ↔ Shown tokens name := by
  fun_induction namesInContext tokens with
  | case1 before t next back later hplace ih =>
    have hshows := (showsClass_iff before t next back).1 hplace
    rw [List.mem_cons, ih, shown_cons, and_iff_left hshows, eq_comm]
  | case2 before t next back later hplace ih =>
    have hshows : ¬ ShowsClass before t next back := fun h => hplace ((showsClass_iff before t next back).2 h)
    rw [ih, shown_cons]
    simp [hshows]
  | case3 tokens hshort =>
    have hnone : ¬ Shown tokens name := by
      rintro ⟨front, before, t, next, back, rfl, -⟩
      cases front with
      | nil => exact hshort _ _ _ _ rfl
      | cons first front => rcases front with _ | ⟨second, _ | ⟨third, front⟩⟩ <;> exact hshort _ _ _ _ rfl
    simp [hnone]

private theorem mem_markedClasses (tokens : List Token) (name : String) :
    name ∈ markedClasses tokens ↔ ∃ t ∈ tokens, t.kind = .classIdent ∧ t.text = name := by
  simp [markedClasses, Token.is, and_assoc]

private theorem mem_classNames (known : Names) (tokens : List Token) (name : String) :
    name ∈ classNames known tokens ↔ NamesClass known tokens name := by
  unfold classNames NamesClass
  rw [Names.mem_addAll, List.mem_append, List.mem_append, mem_markedClasses, mem_namesInContext, or_assoc,
    or_left_comm]

/-! ### One token -/

private theorem marks_markClass {names : Names} {P : String → Prop} (h : ∀ name, name ∈ names ↔ P name) (t : Token) :
    Marks P t (t.markClass names) := by
  refine ⟨t.text_markClass names, t.pos_markClass names, fun hkind => ?_, fun hkind hname => ?_,
    fun hkind hname => ?_⟩
  · simp [Token.markClass, Token.is, hkind]
  · simp [Token.markClass, Token.is, hkind, (h t.text).2 hname]
  · simp [Token.markClass, Token.is, hkind, mt (h t.text).1 hname]

/-- An identifier that is left is none of the names. -/
private theorem Token.kind_markClass_ident {names : Names} {t : Token} :
    (t.markClass names).kind = .ident ↔ t.kind = .ident ∧ t.text ∉ names := by
  by_cases hkind : t.kind = .ident <;> by_cases hname : t.text ∈ names <;>
    simp [Token.markClass, Token.is, hkind, hname]

private theorem Token.kind_markClass_classIdent {names : Names} {t : Token} :
    (t.markClass names).kind = .classIdent ↔ t.kind = .classIdent ∨ t.kind = .ident ∧ t.text ∈ names := by
  by_cases hkind : t.kind = .ident <;> by_cases hname : t.text ∈ names <;>
    simp [Token.markClass, Token.is, hkind, hname]

/-- Marking leaves the words and the symbols that show the names of classes, and makes no new ones. -/
private theorem Token.kind_markClass_of_ne {names : Names} {t : Token} {kind : Kind} (hclass : kind ≠ .classIdent)
    (h : (t.markClass names).kind = kind) : t.kind = kind := by
  unfold markClass at h
  split at h
  · exact absurd h.symm hclass
  · exact h

/-- The marks of fewer names may be put first. -/
private theorem Token.markClass_markClass {names names' : Names} (h : ∀ name ∈ names, name ∈ names') (t : Token) :
    (t.markClass names).markClass names' = t.markClass names' := by
  by_cases hkind : t.kind = .ident <;> by_cases hname : t.text ∈ names
  · simp [markClass, Token.is, hkind, hname, h t.text hname]
  all_goals simp [markClass, Token.is, hkind, hname]

private theorem markClass_congr {names names' : Names} (h : ∀ name, name ∈ names ↔ name ∈ names') :
    Token.markClass names = Token.markClass names' := by
  funext t
  have hmem : names.contains t.text = names'.contains t.text := by
    rw [Bool.eq_iff_iff, List.contains_iff_mem, List.contains_iff_mem]
    exact h t.text
  unfold Token.markClass
  rw [hmem]

/-! ### Marking a list that is marked in part -/

/-- Marking makes no place that shows the name of a class. -/
private theorem Shown.of_map_markClass {names : Names} {tokens : List Token} {name : String}
    (h : Shown (tokens.map (·.markClass names)) name) : Shown tokens name := by
  obtain ⟨front, before, t, next, back, htokens, hname, hident, hbeside⟩ := h
  obtain ⟨front, rest₁, rfl, -, h₁⟩ := List.map_eq_append_iff.1 htokens
  obtain ⟨before, rest₂, rfl, rfl, h₂⟩ := List.map_eq_cons_iff.1 h₁
  obtain ⟨t, rest₃, rfl, rfl, h₃⟩ := List.map_eq_cons_iff.1 h₂
  obtain ⟨next, back, rfl, rfl, rfl⟩ := List.map_eq_cons_iff.1 h₃
  refine ⟨front, before, t, next, back, rfl, (t.text_markClass names).symm.trans hname,
    (Token.kind_markClass_ident.1 hident).1, ?_⟩
  rcases hbeside with (hword | hword) | ⟨hstar, rpar, hmem, hrpar⟩
  · exact .inl (.inl (Token.kind_markClass_of_ne nofun hword))
  · exact .inl (.inr (Token.kind_markClass_of_ne nofun hword))
  · rw [List.head?_map, Option.mem_def, Option.map_eq_some_iff] at hmem
    obtain ⟨rpar, hmem, rfl⟩ := hmem
    exact .inr ⟨Token.kind_markClass_of_ne nofun hstar, rpar, hmem,
      Token.kind_markClass_of_ne nofun hrpar⟩

/-- A name that a place shows stands there as an identifier. -/
private theorem Shown.exists_ident {tokens : List Token} {name : String} (h : Shown tokens name) :
    ∃ t ∈ tokens, t.kind = .ident ∧ t.text = name := by
  obtain ⟨front, before, t, next, back, rfl, hname, hident, -⟩ := h
  exact ⟨t, by simp, hident, hname⟩

/-- Marks put on beforehand, if they are those the list asks for itself and only names of classes, make no
difference to what names its classes. -/
private theorem namesClass_map_markClass {known names : Names} {tokens : List Token}
    (hown : ∀ name, Shown tokens name → name ∈ names) (honly : ∀ name ∈ names, NamesClass known tokens name)
    (name : String) : NamesClass known (tokens.map (·.markClass names)) name ↔ NamesClass known tokens name := by
  constructor
  · rintro (hfoundation | hknown | ⟨t', ht', hkind, hname⟩ | hshown)
    · exact .inl hfoundation
    · exact .inr (.inl hknown)
    · obtain ⟨t, ht, rfl⟩ := List.mem_map.1 ht'
      rw [t.text_markClass] at hname
      rcases Token.kind_markClass_classIdent.1 hkind with hkind | ⟨-, hmem⟩
      · exact .inr (.inr (.inl ⟨t, ht, hkind, hname⟩))
      · exact hname ▸ honly _ hmem
    · exact .inr (.inr (.inr hshown.of_map_markClass))
  · have hmark : ∀ t ∈ tokens, (t.markClass names).kind = .classIdent → t.text = name →
        NamesClass known (tokens.map (·.markClass names)) name := fun t ht hkind hname =>
      .inr (.inr (.inl ⟨t.markClass names, List.mem_map_of_mem ht, hkind, (t.text_markClass names).trans hname⟩))
    rintro (hfoundation | hknown | ⟨t, ht, hkind, hname⟩ | hshown)
    · exact .inl hfoundation
    · exact .inr (.inl hknown)
    · exact hmark t ht (Token.kind_markClass_classIdent.2 (.inl hkind)) hname
    · -- the place is gone, and the name stands there with its mark
      obtain ⟨t, ht, hkind, hname⟩ := hshown.exists_ident
      have hmem : t.text ∈ names := hname ▸ hown name hshown
      exact hmark t ht (Token.kind_markClass_classIdent.2 (.inr ⟨hkind, hmem⟩)) hname

/-- A pass after one that put on such marks does what it does by itself. -/
private theorem markClasses_map_markClass {known names : Names} {tokens : List Token}
    (hown : ∀ name, Shown tokens name → name ∈ names) (honly : ∀ name ∈ names, NamesClass known tokens name) :
    markClasses known (tokens.map (·.markClass names)) = markClasses known tokens ∧
      ∀ name, name ∈ classNames known (tokens.map (·.markClass names)) ↔ name ∈ classNames known tokens := by
  have hnames : ∀ name,
      name ∈ classNames known (tokens.map (·.markClass names)) ↔ name ∈ classNames known tokens := by
    intro name
    rw [mem_classNames, mem_classNames, namesClass_map_markClass hown honly]
  refine ⟨?_, hnames⟩
  have hmore : ∀ name ∈ names, name ∈ classNames known tokens := fun name h =>
    (mem_classNames known tokens name).2 (honly name h)
  change (tokens.map (Token.markClass names)).map (Token.markClass (classNames known _)) = _
  rw [List.map_map, markClass_congr hnames]
  exact List.map_congr_left fun t _ => t.markClass_markClass hmore

/-- Names that are learnt from a list name no other classes in it. -/
private theorem namesClass_classNames (known : Names) (tokens : List Token) (name : String) :
    NamesClass (classNames known tokens) tokens name ↔ NamesClass known tokens name := by
  constructor
  · rintro (hfoundation | hlearnt | hmarked)
    · exact .inl hfoundation
    · exact (mem_classNames known tokens name).1 hlearnt
    · exact .inr (.inr hmarked)
  · exact fun h => .inr (.inl ((mem_classNames known tokens name).2 h))

private theorem settles (known : Names) (tokens : List Token) : Settles known tokens where
  tokenwise := by
    unfold markClasses
    rw [List.forall₂_map_right_iff]
    exact List.forall₂_same.2 fun t _ => marks_markClass (mem_classNames known tokens) t
  apart := by
    intro t₁ h₁ t₂ h₂ hident hclass htext
    obtain ⟨t, -, rfl⟩ := List.mem_map.1 h₁
    obtain ⟨t', ht', rfl⟩ := List.mem_map.1 h₂
    rw [t.text_markClass, t'.text_markClass] at htext
    refine (Token.kind_markClass_ident.1 hident).2 ?_
    rcases Token.kind_markClass_classIdent.1 hclass with hkind | ⟨-, hmem⟩
    · exact (mem_classNames known tokens _).2 (.inr (.inr (.inl ⟨t', ht', hkind, htext.symm⟩)))
    · exact htext ▸ hmem
  grows := fun name h => (mem_classNames known tokens name).2 (.inr (.inl h))
  learnt := by
    intro t₁ h₁ hclass
    obtain ⟨t, ht, rfl⟩ := List.mem_map.1 h₁
    rw [t.text_markClass]
    rcases Token.kind_markClass_classIdent.1 hclass with hkind | ⟨-, hmem⟩
    · exact (mem_classNames known tokens _).2 (.inr (.inr (.inl ⟨t, ht, hkind, rfl⟩)))
    · exact hmem
  again := by
    have hsame : ∀ name, name ∈ classNames (classNames known tokens) tokens ↔ name ∈ classNames known tokens := by
      intro name
      rw [mem_classNames, namesClass_classNames, mem_classNames]
    have hown : ∀ name, Shown tokens name → name ∈ classNames known tokens := fun name h =>
      (mem_classNames known tokens name).2 (.inr (.inr (.inr h)))
    have honly : ∀ name ∈ classNames known tokens, NamesClass (classNames known tokens) tokens name :=
      fun name h => .inr (.inl h)
    obtain ⟨htokens, hnames⟩ := markClasses_map_markClass hown honly
    refine ⟨htokens.trans ?_, fun name => (hnames name).trans (hsame name)⟩
    exact congrArg (tokens.map ·) (markClass_congr hsame)
  fused := by
    have hown : ∀ name, Shown tokens name → name ∈ classNames [] tokens := fun name h =>
      (mem_classNames [] tokens name).2 (.inr (.inr (.inr h)))
    have honly : ∀ name ∈ classNames [] tokens, NamesClass known tokens name := by
      intro name h
      rcases (mem_classNames [] tokens name).1 h with hfoundation | hnone | hmarked | hshown
      · exact .inl hfoundation
      · cases hnone
      · exact .inr (.inr (.inl hmarked))
      · exact .inr (.inr (.inr hshown))
    exact markClasses_map_markClass hown honly

/-- Marking the class names of a list settles in one pass, whatever names are known; and the tokens of a piece, on
which the names of its own classes are marked before those the session knows, are what one pass over the scanned
tokens gives. -/
theorem marking_settles :
    (∀ known tokens, Settles known tokens) ∧
      ∀ (s : Session) (source : String),
        (s.tokenize source).1 = markClasses s.classNames (scanTokens source) ∧
          ∀ name, name ∈ (s.tokenize source).2.classNames ↔ name ∈ classNames s.classNames (scanTokens source) :=
  ⟨settles, fun s source => (settles s.classNames (scanTokens source)).fused⟩

end ObjScript
