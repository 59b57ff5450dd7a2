import ObjScript.Proofs.Eval.Failures
import ObjScript.Proofs.Session.Dispatch

/-!
# The failures of a session

Whatever a session runs, the last failure is one that the language knows (`failures_are_documented`): an operator of
the code that does not take its operands, at the place of the token it was read from; a `return` outside of all
bodies; a call that asks for too large an array; or a nesting that is too deep.

The run is compared with one that stops at a node which is not of the code.  The two are the same, and of the second
one it is known how it ends.
-/

namespace ObjScript

namespace Session

/-- The tokens of the pieces that a session runs. -/
def tokens (s : Session) : List String → List Token
  | [] => []
  | source :: rest => (s.tokenize source).1 ++ (s.execute source).2.tokens rest

/-- The statements that a session runs at its top level. -/
def statements (s : Session) : List String → List Stmt
  | [] => []
  | source :: rest =>
    (match s.parse source with
      | (.ok stmts, s) => (s.resolve stmts).1
      | (.error _, _) => []) ++ (s.execute source).2.statements rest

/-- The failures that the language knows, in a session that runs these pieces. -/
inductive Documented (s : Session) (sources : List String) : Fault → Prop where
  /-- The operator of a node does not take its operands, and the failure has the place of its token. -/
  | type {a : Place} {fault : TypeFault} {t : Token} {symbol : Symbol} : a ∈ s.code sources → t ∈ s.tokens sources →
      t.kind = .symbol symbol → a.node.operator? = some (symbol, t.pos) → a.node.Rejects fault t.pos →
      Documented s sources (.type fault t.pos)
  | returnOutside {t : Stmt} : t ∈ s.statements sources → t.Returns → Documented s sources .returnOutside
  | arrayTooLarge {a : Place} {callee : Expr} {args : List Expr} {x : Float} : a ∈ s.code sources →
      a.node = .expr (.call callee args) → maxArraySize.toFloat < x →
      Documented s sources (.arrayTooLarge (Number.text x))
  | tooDeep : Documented s sources .tooDeep

end Session

/-! ### Operators and their tokens -/

private theorem Node.Rejects.operator? {n : Node} {fault : TypeFault} {pos : Pos} (h : n.Rejects fault pos) :
    ∃ symbol, n.operator? = some (symbol, pos) := by
  unfold Node.Rejects at h
  split at h
  · exact ⟨_, by rw [← h.1]; rfl⟩
  · exact ⟨_, by rw [← h.1]; rfl⟩
  · exact ⟨_, by rw [← h.1]; rfl⟩
  · exact ⟨_, by rw [← h.1]; rfl⟩
  · exact ⟨_, by rw [← h.1]; rfl⟩
  · exact h.elim

/-- The analysis leaves operators where they are. -/
private theorem Node.operator?_resolved (s : Scopes) (n : Node) : (n.resolved s).operator? = n.operator? := by
  cases n with
  | expr e => cases e <;> rfl
  | stmt t => cases t <;> rfl

private theorem Node.Marked.mono {S S' : Token → Prop} {n : Node} (h : n.Marked S) (hS : ∀ t, S t → S' t) :
    n.Marked S' := by
  intro symbol pos hn
  obtain ⟨t, ht, hkind, hpos⟩ := h symbol pos hn
  exact ⟨t, hS t ht, hkind, hpos⟩

/-- Every operator of the code stands at a token of the pieces. -/
private theorem Session.AtTop.marked_code {s : Session} (hs : s.AtTop) (sources : List String) :
    ∀ a ∈ s.code sources, a.node.Marked (· ∈ s.tokens sources) := by
  induction sources generalizing s with
  | nil => exact List.forall_mem_nil _
  | cons source rest ih =>
    refine List.forall_mem_append.2 ⟨?_, fun a ha => ?_⟩
    · cases hparse : s.parse source with
      | mk result s' =>
        cases result with
        | error b => exact List.forall_mem_nil _
        | ok stmts =>
          intro a ha
          have hnodes : ∀ n ∈ Stmt.nodesList stmts, n.Marked (· ∈ (s.tokenize source).1) :=
            fun n hn => (readFrom_parse hparse n hn).2
          obtain ⟨site, ⟨n, scopes, hn, -, hnode⟩, rfl⟩ := (hs.parse hparse).sited_piece hparse hnodes a ha
          intro symbol pos hop
          change site.node.operator? = some (symbol, pos) at hop
          rw [hnode, n.operator?_resolved scopes] at hop
          obtain ⟨t, ht, h⟩ := hn symbol pos hop
          exact ⟨t, List.mem_append_left _ ht, h⟩
    · exact (ih (hs.execute source) a ha).mono fun t ht => List.mem_append_right _ ht

/-! ### The last failure -/

/-- A program notes a failure of its own, or leaves the note as it was. -/
private theorem Machine.lastFault_interpretWith {P : Fault → Prop} {i : Interp} {m : Machine} {stmts : List Stmt}
    (h : Run.Ends P Run.Any (Run.program i Env.top stmts)) (hm : ∀ f, m.lastFault = some f → P f) :
    ∀ f, (m.interpretWith i stmts).2.lastFault = some f → P f := by
  intro f hf
  obtain ⟨hlast, hresult⟩ := h m
  unfold Machine.interpretWith at hf
  match hr : (Run.program i Env.top stmts).result m with
  | (.error (.fault g), m') =>
    rw [hr] at hf hresult
    obtain rfl : g = f := Option.some.inj hf
    exact hresult
  | (.ok (), m') | (.error (.badNumeral b), m') | (.error .unfinished, m') =>
    rw [hr] at hf hlast
    exact hm f (hlast.symm.trans hf)

/-- What is known of every failure of a run is known of the last one of a session. -/
private theorem Session.lastFault_executeAll {R : Regime} [R.Lawful] {P : Fault → Prop} {i : Interp}
    (h : R.Agree i (interp depthLimit)) (hi : i.Ends P) {sources : List String} {s : Session}
    (hs : R.Ready s.machine.store) (hok : ∀ a ∈ s.code sources, R.ok a)
    (hreturn : ∀ t ∈ s.statements sources, t.Returns → P .returnOutside)
    (hlast : ∀ f, s.machine.lastFault = some f → P f) :
    ∀ f, (s.executeAll sources).2.machine.lastFault = some f → P f := by
  induction sources generalizing s with
  | nil => exact hlast
  | cons source rest ih =>
    obtain ⟨hpiece, hcode⟩ := List.forall_mem_append.1 hok
    obtain ⟨hhere, hthere⟩ := List.forall_mem_append.1 hreturn
    obtain ⟨⟨log, hmachine⟩, -⟩ := s.parse_frame source
    cases hparse : s.parse source with
    | mk result s' =>
      rw [hparse] at hmachine hpiece hhere
      have hready : R.Ready s'.machine.store := by rw [hmachine]; exact hs
      have hlast' : ∀ f, s'.machine.lastFault = some f → P f := by rw [hmachine]; exact hlast
      cases result with
      | error b =>
        have hexecute : (s.execute source).2 = s' := by
          unfold Session.execute
          rw [hparse]
        exact ih (hexecute ▸ hready) hcode hthere (hexecute ▸ hlast')
      | ok stmts =>
        obtain ⟨hrun, hafter⟩ := runWith_eq h hready hpiece
        have hexecute := execute_snd hparse
        have hnote : ∀ f, (s.execute source).2.machine.lastFault = some f → P f := by
          rw [hexecute, ← hrun]
          exact Machine.lastFault_interpretWith (Run.ends_program hi _ _ hhere) hlast'
        exact ih (hexecute ▸ hafter) hcode hthere hnote

/-- The failures of the nodes of the code are known. -/
private theorem Session.AtTop.documented {s : Session} (hs : s.AtTop) {sources : List String} {a : Place}
    (ha : a ∈ s.code sources) {f : Fault} (hf : a.node.Fails f) : s.Documented sources f := by
  generalize hnode : a.node = n at hf
  cases hf with
  | tooDeep => exact .tooDeep
  | type hrejects =>
    subst hnode
    obtain ⟨symbol, hop⟩ := hrejects.operator?
    obtain ⟨t, ht, hkind, rfl⟩ := hs.marked_code sources a ha symbol _ hop
    exact .type ha ht hkind hop hrejects
  | arrayTooLarge hx => exact .arrayTooLarge ha hnode hx

/-- A failure has a place if and only if it is one of an operator. -/
private theorem Fault.kind_pos (f : Fault) :
    f.kind = "MobjcTypeError" ∧ f.pos?.isSome = true ∨ f.kind = "MobjcRuntimeError" ∧ f.pos? = none ∨
      f.kind = "RecursionError" ∧ f.pos? = none := by
  cases f with
  | type fault pos => exact .inl ⟨rfl, rfl⟩
  | returnOutside => exact .inr (.inl ⟨rfl, rfl⟩)
  | arrayTooLarge size => exact .inr (.inl ⟨rfl, rfl⟩)
  | noBuiltinMethod typeName name => exact .inr (.inl ⟨rfl, rfl⟩)
  | tooDeep => exact .inr (.inr ⟨rfl, rfl⟩)

/-- The last failure of a session is one that the language knows, and only a failure of an operator has a place. -/
theorem failures_are_documented (input : List String) (clock : Nat → Float) (threshold : Nat) (sources : List String)
    (f : Fault)
    (h : ((Session.initial (Machine.initial input clock threshold)).executeAll sources).2.machine.lastFault =
      some f) :
    (Session.initial (Machine.initial input clock threshold)).Documented sources f ∧
      (f.kind = "MobjcTypeError" ∧ f.pos?.isSome = true ∨ f.kind = "MobjcRuntimeError" ∧ f.pos? = none ∨
        f.kind = "RecursionError" ∧ f.pos? = none) := by
  refine ⟨?_, f.kind_pos⟩
  let session := Session.initial (Machine.initial input clock threshold)
  let R := Regime.methods (session.code sources)
  have htop : session.AtTop := ⟨[], rfl, List.forall_mem_nil _⟩
  let ofCode (node : Node) : Prop := ∃ a ∈ session.code sources, a.node = node
  -- the evaluators that stop outside of the code do what the plain ones do
  have hagree : R.Agree (watched (fun _ node _ => ofCode node) .unfinished depthLimit) (interp depthLimit) :=
    Regime.agree_watched (fun _ _ => id) (fun {_ _ p node} _ _ hok => ⟨_, (hok _ (node.mem_places p)).1, rfl⟩)
      .unfinished depthLimit
  have hends : (watched (fun _ node _ => ofCode node) .unfinished depthLimit).Ends (session.Documented sources) := by
    refine ends_watched .tooDeep ?_ depthLimit
    rintro _ f ⟨a, ha, rfl⟩ hf
    exact htop.documented ha hf
  have hcode : ∀ a ∈ session.code sources, R.ok a := by
    intro a ha
    obtain ⟨site, hsited, rfl⟩ := htop.sited_code sources a ha
    exact ⟨ha, hsited.wellPlaced⟩
  exact Session.lastFault_executeAll hagree hends (Regime.ready_methods _) hcode (fun _ => .returnOutside) nofun f h

/-- The place of a failure is that of the operator, here of a minus sign in the second piece. -/
theorem failures_are_documented_at_minus :
    let session := Session.initial (Machine.initial [] (fun _ => 0) 30)
    (session.executeAll ["int x = 3;", "print x -\n nil;"]).2.machine.lastFault =
        some (.type (.notANumber "-" "ObjNull") ⟨1, 9⟩) ∧
      session.Documented ["int x = 3;", "print x -\n nil;"] (.type (.notANumber "-" "ObjNull") ⟨1, 9⟩) := by
  intro session
  have h : (session.executeAll ["int x = 3;", "print x -\n nil;"]).2.machine.lastFault =
      some (.type (.notANumber "-" "ObjNull") ⟨1, 9⟩) := by decide +kernel
  exact ⟨h, (failures_are_documented [] (fun _ => 0) 30 _ _ h).1⟩

end ObjScript
