import ObjScript.Proofs.Eval.LinkedRuns
import ObjScript.Proofs.Session.Code

/-!
# Chains are finite

Nothing in a program says that chains of frames and lines of classes come to an end: frames are made for calls,
blocks, copies and bound methods, and a class may name itself or a class below it as its superclass.  They do, since a
link is given to a frame or a class when it is made, leads to what was made before, and stays for the whole session
(`links_lead_back`).  The links of a session are the ones that it has in the end; a node of an earlier run sees those
of them that were there by then.
-/

namespace ObjScript

namespace LinkedStore

variable {i : Watch → Interp} {w x : LinkedStore} {env : Env} {m : Machine}

/-- The store is linked, and so is the chain at the top level. -/
structure Ready (w : LinkedStore) (s : Store) : Prop where
  store : w.store = s
  sound : w.Sound
  top : w.IsChain Env.top

/-- The links before a program: the frame of the program lies in that of the built-in names. -/
def initial : LinkedStore where
  store := Store.initial
  outer := fun f => if f.index = 1 then some .globals else none

private theorem ready_initial : initial.Ready Store.initial := by
  refine ⟨rfl, ⟨?_, ?_, Store.sound_initial.lineages⟩, ?_⟩
  · exact Store.holds_initial (fun n _ => initial.good_native n) (good_classRef Nat.zero_lt_one) initial.isChain_nil
  · intro f g hg
    simp only [initial] at hg
    split at hg
    · next hf =>
      cases hg
      rw [hf]
      exact Nat.zero_lt_one
    · cases hg
  · constructor
    · exact .cons rfl (.cons rfl .nil)
    · simp [Env.top, initial, Store.initial, FrameId.globals]

/-- Links lead to what was made before. -/
private theorem Sound.earlier (hw : w.Sound) : w.links.Earlier where
  outer := hw.outer
  above _ _ hd := hw.lineages.index_lt (List.mem_of_mem_head? hd)

/-- The line of a class goes along the superclasses. -/
private theorem Sound.walk_line (hw : w.Sound) (c : ClassId) : Walk w.store.superclass? (w.store.line c) := by
  have hwalk : ∀ l below, w.store.line c = below ++ l → Walk w.store.superclass? l := by
    intro l
    induction l with
    | nil => exact fun _ _ => .nil
    | cons d l ih =>
      intro below hline
      refine .cons ?_ (ih (below ++ [d]) (by simpa using hline))
      exact congrArg List.head? (hw.lineages.lineage_eq hline)
  exact hwalk _ [] rfl

/-- The chains and lines of a store go along what its links grow to. -/
private theorem Sound.linked (hw : w.Sound) (henv : w.IsChain env) (hg : w.Grows x) : w.store.Linked x.links env where
  env := (henv.mono hg).1
  values := hw.values.mono (fun _ hv => (hv.1.mono hg).1) fun _ hm => (IsChain.mono hm hg).1
  lines := by
    intro c hc
    refine (hw.walk_line c).congr fun d hd => ?_
    exact congrArg List.head? (hg.lineage d (hw.lineages.lt_size hc hd))

/-- A program at the top level. -/
private theorem Agree.interpret (h : Agree i (interp depthLimit)) (hw : w.Ready m.store) (stmts : List Stmt) :
    ∃ x, x.Ready (m.interpret stmts).2.store ∧ w.Grows x ∧
      ∀ y : Watch, x.Grows y.final → m.interpretWith (i y) stmts = m.interpret stmts := by
  obtain ⟨r, m', outer, hrun, hg, hsound, -, hsame⟩ := h.program hw.top stmts hw.sound m hw.store.symm
  refine ⟨⟨m'.store, outer⟩, ⟨?_, hsound, hw.top.mono hg⟩, hg, fun y hy => ?_⟩
  · rw [← Machine.interpretWith_interp, Machine.interpretWith, hrun]
    match r with
    | .ok () | .error (.fault _) | .error (.badNumeral _) | .error .unfinished => rfl
  · rw [← Machine.interpretWith_interp, Machine.interpretWith, Machine.interpretWith, hrun, hsame y hy]

/-- A piece of a session. -/
private theorem Agree.execute (h : Agree i (interp depthLimit)) {s : Session} (hw : w.Ready s.machine.store)
    (source : String) : ∃ x, x.Ready (s.execute source).2.machine.store ∧ w.Grows x ∧
      ∀ y : Watch, x.Grows y.final → s.executeWith (i y) source = s.execute source := by
  obtain ⟨⟨log, hmachine⟩, -⟩ := s.parse_frame source
  cases hparse : s.parse source with
  | mk result s' =>
    rw [hparse] at hmachine
    have hstore : s'.machine.store = s.machine.store := congrArg (·.store) hmachine
    have hw' : w.Ready s'.machine.store := hstore ▸ hw
    cases result with
    | error b =>
      refine ⟨w, ?_, .refl w, fun y _ => ?_⟩
      · unfold Session.execute
        rw [hparse]
        exact hw'
      · unfold Session.executeWith Session.execute
        rw [hparse]
    | ok stmts =>
      obtain ⟨x, hx, hg, hsame⟩ := h.interpret hw' (s'.resolve stmts).1
      refine ⟨x, ?_, hg, fun y hy => Session.executeWith_of_run hparse (Session.runWith_of_interpret ?_)⟩
      · rw [Session.execute_snd hparse]
        exact hx
      · rw [Machine.interpretWith_interp]
        exact hsame y hy

/-- One piece after the other; between the pieces the links are on their way to what they are in the end. -/
private theorem Agree.executeAll (h : Agree i (interp depthLimit)) {s : Session} (hw : w.Ready s.machine.store)
    (sources : List String) : ∃ x, w.Grows x ∧ x.Sound ∧
      (∀ before after, sources = before ++ after →
        ∃ v : LinkedStore, v.Ready (s.executeAll before).2.machine.store ∧ v.Grows x) ∧
      ∀ y : Watch, x.Grows y.final → s.executeAllWith (i y) sources = s.executeAll sources := by
  induction sources generalizing s w with
  | nil =>
    refine ⟨w, .refl w, hw.sound, fun before after hsplit => ?_, fun _ _ => rfl⟩
    obtain ⟨rfl, -⟩ := List.append_eq_nil_iff.1 hsplit.symm
    exact ⟨w, hw, .refl w⟩
  | cons source rest ih =>
    obtain ⟨x₁, hx₁, hg₁, hfirst⟩ := h.execute hw source
    obtain ⟨x, hg, hsound, hbetween, hrest⟩ := ih hx₁
    refine ⟨x, hg₁.trans hg, hsound, fun before after hsplit => ?_, fun y hy => ?_⟩
    · cases before with
      | nil => exact ⟨w, hw, hg₁.trans hg⟩
      | cons first before =>
        obtain ⟨rfl, hrest⟩ := List.cons.inj hsplit
        exact hbetween before after hrest
    · unfold Session.executeAllWith Session.executeAll
      rw [hfirst y (hg.trans hy)]
      dsimp only
      rw [hrest y hy]

end LinkedStore

/-- Whatever is run, there is one link for each frame and for each class that leads to what was made before, and
throughout the session, at every node and between the pieces, all chains of frames and all lines of classes go along
these links, so that all searches along them end. -/
theorem links_lead_back (input : List String) (clock : Nat → Float) (threshold : Nat) (sources : List String) :
    ∃ L : Links, L.Earlier ∧
      (Session.initial (Machine.initial input clock threshold)).Always sources
        (fun env _ m => m.store.Linked L env ∧ m.store.SearchesEnd L) ∧
      ∀ before after, sources = before ++ after →
        let s := ((Session.initial (Machine.initial input clock threshold)).executeAll before).2.machine.store
        s.Linked L Env.top ∧ s.SearchesEnd L := by
  let law (y : LinkedStore) (env : Env) (_ : Node) (m : Machine) : Prop :=
    m.store.Linked y.links env ∧ m.store.SearchesEnd y.links
  have hlaw : ∀ (w y : LinkedStore) (env : Env) (node : Node) (m : Machine), w.Sound → w.IsChain env →
      m.store = w.store → y.Sound → w.Grows y → law y env node m := by
    intro w y env node m hw henv hm hy hg
    have hlinked := hw.linked henv hg
    rw [← hm] at hlinked
    exact ⟨hlinked, Store.searchesEnd_of_lines hy.earlier hlinked.lines⟩
  have hagree : LinkedStore.Agree (fun y => watched (law y.final) y.stop depthLimit) (interp depthLimit) :=
    LinkedStore.agree_watched hlaw depthLimit
  obtain ⟨x, -, hx, hbetween, hsame⟩ := hagree.executeAll
    (s := Session.initial (Machine.initial input clock threshold)) LinkedStore.ready_initial sources
  refine ⟨x.links, hx.earlier, fun stop => ?_, fun before after hsplit => ?_⟩
  · exact hsame ⟨x, hx, stop⟩ (.refl x)
  · obtain ⟨v, hv, hg⟩ := hbetween before after hsplit
    have hlinked := hv.sound.linked hv.top hg
    rw [hv.store] at hlinked
    exact ⟨hlinked, Store.searchesEnd_of_lines hx.earlier hlinked.lines⟩

/-- A class that names itself has no superclass.  A class that is declared again below itself is a new one, which
stands on the class there was before. -/
example :
    let source := "@interface A : A @end @interface B : A @end @interface A : B @end"
    let s := ((Session.initial (Machine.initial [] (fun _ => 0) 0)).executeAll [source]).2.machine.store
    s.classes.toList.map (fun c => (c.name, c.lineage)) =
      [("NSObject", []), ("A", []), ("B", [⟨1⟩]), ("A", [⟨2⟩, ⟨1⟩])] := by
  decide +kernel

end ObjScript
