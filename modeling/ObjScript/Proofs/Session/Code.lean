import ObjScript.Proofs.Eval.Isolation
import ObjScript.Proofs.Scope.Sites
import ObjScript.Proofs.Session.Alignment

/-!
# The code of a session

The code of a session is the list of the places of all its pieces, as the analysis leaves them (`Session.code`).  If
all of it belongs to a regime, then evaluators that agree under the regime lead through the session in the same way
(`Session.executeAllWith_eq`), and so a law of the regime holds at every node that is evaluated
(`Session.Always`).
-/

namespace ObjScript

/-- The places of the code that a session runs. -/
def Session.code (s : Session) : List String → List Place
  | [] => []
  | source :: rest =>
    (match s.parse source with
      | (.ok stmts, s) => Stmt.placesList (s.resolve stmts).1 [none]
      | (.error _, _) => []) ++ (s.execute source).2.code rest

/-- The law holds at every node that the session evaluates: a run that would be stopped where it does not hold is no
different, whatever it would be stopped with. -/
def Session.Always (s : Session) (sources : List String) (law : Env → Node → Machine → Prop) : Prop :=
  ∀ stop, s.executeAllWith (watched law stop depthLimit) sources = s.executeAll sources

/-! ### Sessions under a regime -/

namespace Regime

variable {R : Regime} [hR : R.Lawful] {i j : Interp}

/-- The store is sound, and the program can be run at the top level. -/
structure Ready (R : Regime) (s : Store) : Prop where
  inv : R.Inv s
  top : R.Follows s Env.top [none]

/-- A program at the top level. -/
private theorem Agree.interpret (h : R.Agree i j) {m : Machine} (hm : R.Ready m.store) {stmts : List Stmt}
    (hok : ∀ a ∈ Stmt.placesList stmts [none], R.ok a) :
    m.interpretWith i stmts = m.interpretWith j stmts ∧ R.Ready (m.interpretWith j stmts).2.store := by
  obtain ⟨r, m', hi, hj, hinv, hafter, -⟩ := h.program hm.top hok hm.inv m rfl
  have hready : R.Ready m'.store := ⟨hinv, hm.top.mono hm.inv hafter⟩
  unfold Machine.interpretWith
  rw [hi, hj]
  refine ⟨rfl, ?_⟩
  match r with
  | .ok () | .error (.fault _) | .error (.badNumeral _) | .error .unfinished => exact hready

end Regime

namespace Session

section SameRun

variable {i : Interp} {s s' : Session} {stmts : List Stmt}

/-- Evaluators with which the program is run in the same way. -/
theorem runWith_of_interpret (h : s.machine.interpretWith i (s.resolve stmts).1 =
    s.machine.interpretWith (interp depthLimit) (s.resolve stmts).1) : s.runWith i stmts = s.run stmts := by
  rw [Machine.interpretWith_interp] at h
  exact congrArg (fun x : Except Escape Unit × Machine => (x.1, { (s.resolve stmts).2 with machine := x.2 })) h

theorem executeWith_of_run {source : String} (hparse : s.parse source = (.ok stmts, s'))
    (hrun : s'.runWith i stmts = s'.run stmts) : s.executeWith i source = s.execute source := by
  unfold executeWith execute
  rw [hparse]
  dsimp only
  exact hrun ▸ rfl

end SameRun

variable {R : Regime} [hR : R.Lawful] {i : Interp} {s : Session}

theorem runWith_eq (h : R.Agree i (interp depthLimit)) (hs : R.Ready s.machine.store) {stmts : List Stmt}
    (hok : ∀ a ∈ Stmt.placesList (s.resolve stmts).1 [none], R.ok a) :
    s.runWith i stmts = s.run stmts ∧ R.Ready (s.run stmts).2.machine.store := by
  obtain ⟨hsame, hready⟩ := h.interpret hs hok
  rw [Machine.interpretWith_interp] at hready
  exact ⟨runWith_of_interpret hsame, hready⟩

/-- The machine after a piece is the one after its run. -/
theorem execute_snd {source : String} {stmts : List Stmt} {s' : Session} (h : s.parse source = (.ok stmts, s')) :
    (s.execute source).2 = (s'.run stmts).2 := by
  unfold execute
  rw [h]
  dsimp only
  split
  · next hrun => rw [hrun]
  · next hrun => rw [hrun]

private theorem executeWith_eq (h : R.Agree i (interp depthLimit)) (hs : R.Ready s.machine.store) {source : String}
    (hok : ∀ stmts s', s.parse source = (.ok stmts, s') → ∀ a ∈ Stmt.placesList (s'.resolve stmts).1 [none], R.ok a) :
    s.executeWith i source = s.execute source ∧ R.Ready (s.execute source).2.machine.store := by
  obtain ⟨⟨log, hmachine⟩, -⟩ := s.parse_frame source
  cases hparse : s.parse source with
  | mk result s' =>
    rw [hparse] at hmachine
    have hstore : s'.machine.store = s.machine.store := congrArg (·.store) hmachine
    have hs' : R.Ready s'.machine.store := hstore ▸ hs
    cases result with
    | error b =>
      unfold executeWith execute
      rw [hparse]
      exact ⟨rfl, hs'⟩
    | ok stmts =>
      obtain ⟨hrun, hready⟩ := runWith_eq h hs' (hok stmts s' hparse)
      rw [execute_snd hparse]
      exact ⟨executeWith_of_run hparse hrun, hready⟩

/-- Evaluators that agree on the code lead through the session in the same way. -/
private theorem executeAllWith_eq (h : R.Agree i (interp depthLimit)) (hs : R.Ready s.machine.store)
    {sources : List String}
    (hok : ∀ a ∈ s.code sources, R.ok a) : s.executeAllWith i sources = s.executeAll sources := by
  induction sources generalizing s with
  | nil => rfl
  | cons source rest ih =>
    obtain ⟨hpiece, hrest⟩ := List.forall_mem_append.1 hok
    obtain ⟨hfirst, hready⟩ := executeWith_eq h hs fun stmts s' hparse => by rw [hparse] at hpiece; exact hpiece
    unfold executeAllWith executeAll
    rw [hfirst]
    dsimp only
    rw [ih hready hrest]

/-- A law that follows from the invariant holds throughout the session. -/
theorem always_of_regime (hexempt : ∀ s v, ¬ R.exempt s v) {law : Env → Node → Machine → Prop}
    (hlaw : ∀ {m : Machine} {env p node}, R.Inv m.store → R.Follows m.store env p → (∀ a ∈ node.places p, R.ok a) →
      law env node m)
    (hs : R.Ready s.machine.store) {sources : List String} (hok : ∀ a ∈ s.code sources, R.ok a) :
    s.Always sources law :=
  fun stop => executeAllWith_eq (Regime.agree_watched hexempt hlaw stop depthLimit) hs hok

end Session

/-! ### The code comes from the parser and the analysis -/

/-- All nodes below are as the parser builds them. -/
def Node.Written (n : Node) : Prop :=
  ∀ k ∈ n.below, k.AsParsed ∧ k.WellNamed

/-- Only the scope of the program is open, and it declares no reserved word. -/
def Session.AtTop (s : Session) : Prop :=
  ∃ names : Names, s.scopes.stack = [names] ∧ ∀ x ∈ names, IsName x

namespace Session

variable {s s' : Session} {source : String} {stmts : List Stmt}

theorem written_parse (h : s.parse source = (.ok stmts, s')) : ∀ n ∈ Stmt.nodesList stmts, n.Written :=
  fun n hn k hk => ⟨asParsed_parse h k (Stmt.hereditary_nodesList stmts n hn hk),
    wellNamed_parse h k (Stmt.hereditary_nodesList stmts n hn hk)⟩

theorem AtTop.parse (hs : s.AtTop) (h : s.parse source = (.ok stmts, s')) : s'.AtTop := by
  obtain ⟨names, hstack, hnames⟩ := hs
  have hscopes := (s.parse_frame source).2
  rw [h] at hscopes
  exact ⟨names, (congrArg Scopes.stack hscopes).trans hstack, hnames⟩

private theorem AtTop.run (hs : s.AtTop) (hnamed : ∀ n ∈ Stmt.nodesList stmts, n.WellNamed) :
    (s.run stmts).2.AtTop := by
  obtain ⟨names, hstack, hnames⟩ := hs
  refine ⟨names.addAll (Stmt.declaredList stmts), ?_, fun x hx => ?_⟩
  · exact (Stmt.stack_nextList stmts { s.scopes with reports := #[] }).trans (congrArg (declareTop _) hstack)
  · refine (Names.mem_addAll.1 hx).elim (hnames x) fun hx => ?_
    obtain ⟨t, ht, hx⟩ := List.mem_flatMap.1 hx
    exact t.isName_declared (fun n hn => hnamed n (Stmt.mem_nodesList.2 ⟨t, ht, hn⟩)) x hx

theorem AtTop.execute (hs : s.AtTop) (source : String) : (s.execute source).2.AtTop := by
  cases hparse : s.parse source with
  | mk result s' =>
    cases result with
    | error b =>
      obtain ⟨names, hstack, hnames⟩ := hs
      have hscopes := (s.parse_frame source).2
      unfold Session.execute
      rw [hparse] at hscopes ⊢
      exact ⟨names, (congrArg Scopes.stack hscopes).trans hstack, hnames⟩
    | ok stmts =>
      rw [execute_snd hparse]
      exact (hs.parse hparse).run (wellNamed_parse hparse)

/-- Each place of a piece is that of a site to which the analysis came. -/
theorem AtTop.sited_piece (hs : s'.AtTop) (h : s.parse source = (.ok stmts, s')) {P : Node → Prop}
    (hP : ∀ n ∈ Stmt.nodesList stmts, P n) :
    ∀ a ∈ Stmt.placesList (s'.resolve stmts).1 [none], ∃ site, Sited (fun _ _ => False) P site ∧ site.place = a := by
  obtain ⟨names, hstack, hnames⟩ := hs
  intro a ha
  have hmatch : Matches (fun _ _ => False) s'.scopes.stack [⟨none, names⟩] := hstack ▸ .cons ⟨rfl, hnames⟩ .nil
  have hnodes : ∀ n ∈ Stmt.nodesList stmts, n.Fits (fun _ _ => False) ∧ P n := fun n hn =>
    ⟨⟨wellNamed_parse h n hn, fun _ _ _ _ => id⟩, hP n hn⟩
  have hplaces := Stmt.placesList_eq (s'.resolve stmts).1 [⟨none, names⟩]
  obtain ⟨site, hsite, hplace⟩ := List.mem_map.1 (hplaces ▸ ha)
  exact ⟨site, Stmt.allSitedList stmts (s := { s'.scopes with reports := #[] }) hmatch hnodes site hsite, hplace⟩

/-- Each place of the code is that of a site to which the analysis came with a node that the parser built. -/
theorem AtTop.sited_code (hs : s.AtTop) (sources : List String) :
    ∀ a ∈ s.code sources, ∃ site, Sited (fun _ _ => False) Node.Written site ∧ site.place = a := by
  induction sources generalizing s with
  | nil => exact List.forall_mem_nil _
  | cons source rest ih =>
    refine List.forall_mem_append.2 ⟨?_, ih (hs.execute source)⟩
    cases hparse : s.parse source with
    | mk result s' =>
      cases result with
      | error b => exact List.forall_mem_nil _
      | ok stmts => exact (hs.parse hparse).sited_piece hparse (written_parse hparse)

end Session

/-- A law of sound stores and of chains that end in the built-in names holds throughout every session. -/
theorem Session.always_of_sound {law : Env → Node → Machine → Prop}
    (hlaw : ∀ {m : Machine} {env node}, m.store.Sound → m.store.IsChain env → law env node m) (input : List String)
    (clock : Nat → Float) (threshold : Nat) (sources : List String) :
    (Session.initial (Machine.initial input clock threshold)).Always sources law := by
  have hinv : Regime.any.Inv Store.initial := Regime.inv_any Store.sound_initial
  have htop : Regime.any.Follows Store.initial Env.top [none] :=
    .scope nofun (by decide) List.not_mem_nil .globals
  refine Session.always_of_regime (R := .any) (fun _ _ h => h.1) (fun hs henv _ => ?_) ⟨hinv, htop⟩ fun _ _ => trivial
  exact hlaw (Regime.sound_of_inv hs).1 (Regime.isChain_of_follows henv List.not_mem_nil).1

/-- Every state of a session is sound, and every node is evaluated on a chain of frames that ends in the built-in
names. -/
theorem Session.sound_throughout (input : List String) (clock : Nat → Float) (threshold : Nat)
    (sources : List String) :
    (Session.initial (Machine.initial input clock threshold)).Always sources
      fun env _ m => m.store.Sound ∧ m.store.IsChain env :=
  Session.always_of_sound (fun hs henv => ⟨hs, henv⟩) input clock threshold sources

end ObjScript
