import ObjScript.Proofs.Eval.Blind
import ObjScript.Proofs.Parser.Blind
import ObjScript.Proofs.Scope.Blind
import ObjScript.Session

/-!
# Lines and columns have no part in what a program does

Two token lists with the same kinds and texts may stand anywhere in their sources.  On sessions that differ in places
alone, the parser builds the same trees, the analysis finds the same depths and the run does the same, up to the
places in trees and in errors (`behaviour_ignores_places`).  The parser, the analysis and the evaluators never look at
a place (`parse_unlocated`, `resolveProgram_unlocated`, `interp_blind`); what is left of each stage without the places
is therefore made from what was there without the places.
-/

namespace ObjScript

/-- The end of a run, on a machine without places. -/
def settle : Except Stop Unit × Machine → Except Escape Unit × Machine
  | (.ok (), m) => (.ok (), m)
  | (.error (.fault f), m) => (.ok (), { m with
      lastFault := some f
      log := m.log.add ⟨.warning, .evaluator, ""⟩
      printed := m.printed ++ failureMark })
  | (.error (.badNumeral b), m) => (.error (.badNumeral b), m)
  | (.error .unfinished, m) => (.error .unfinished, m)

/-- What is left of a run without the places is made from the machine and the statements without theirs. -/
private theorem Machine.unlocated_interpret (m : Machine) (stmts : List Stmt) :
    ((m.interpret stmts).1, (m.interpret stmts).2.unlocated) =
      settle ((Run.program (interp depthLimit) Env.top (stmts.map Stmt.unlocated)).result m.unlocated) := by
  rw [Run.blind_program (interp_blind depthLimit) Env.top stmts m]
  unfold interpret
  cases hrun : (Run.program (interp depthLimit) Env.top stmts).result m with
  | mk r m' =>
    unfold Run.result at hrun
    rw [hrun]
    cases r with
    | ok u => rfl
    | error e =>
      cases e with
      | fault f => exact congrArg (Prod.mk (Except.ok ())) (m'.unlocated_noteFault f)
      | badNumeral b => rfl
      | unfinished => rfl

namespace Session

/-- The session without its places. -/
def unlocated (s : Session) : Session :=
  { s with
    machine := s.machine.unlocated
    scopes := s.scopes.unlocated
    errors := s.errors.map SyntaxError.unlocated }

/-- The statements of a token list. -/
def parseTokens (s : Session) (tokens : List Token) : Except Number.BadNumeral (List Stmt) × Session :=
  let (result, c) := ObjScript.parse s.typedefs tokens
  let s := { s with typedefs := c.typedefs }
  match result with
  | .error b => (.error b, s)
  | .ok stmts =>
    let s := { s with errors := c.error?.toList }
    match c.error? with
    | none => (.ok stmts, s)
    | some e => (.ok stmts, s.log (syntaxWarning e c.remaining))

theorem parse_eq_parseTokens (s : Session) (source : String) :
    s.parse source = (s.tokenize source).2.parseTokens (s.tokenize source).1 := rfl

/-- Runs a token list and gives what it printed. -/
def perform (s : Session) (tokens : List Token) : Except Escape String × Session :=
  match s.parseTokens tokens with
  | (.error b, s) => (.error (.badNumeral b), s)
  | (.ok stmts, s) =>
    let start := s.machine.printed.length
    match s.run stmts with
    | (.error e, s) => (.error e, s)
    | (.ok (), s) => (.ok (outputFrom s.machine.printed start), s)

theorem execute_eq_perform (s : Session) (source : String) :
    s.execute source = (s.tokenize source).2.perform (s.tokenize source).1 := rfl

/-- A warning leaves nothing behind but that there was one. -/
private theorem unlocated_log_warning (s : Session) (source : LogSource) (message : String) :
    (s.log ⟨.warning, source, message⟩).unlocated = s.unlocated.log ⟨.warning, source, ""⟩ := by
  have hlog := s.machine.log.unlocated_add ⟨.warning, source, message⟩
  exact congrArg (fun log => { s.unlocated with machine := { s.machine.unlocated with log := log } }) hlog.symm

/-- What is left of parsing without the places. -/
def parseUnlocated (s : Session) (parsed : Except Number.BadNumeral (List Stmt) × Cursor) :
    Except Number.BadNumeral (List Stmt) × Session :=
  let s := { s with typedefs := parsed.2.typedefs }
  match parsed.1 with
  | .error b => (.error b, s)
  | .ok stmts =>
    let s := { s with errors := parsed.2.error?.toList }
    (.ok stmts, if parsed.2.error?.isSome then s.log ⟨.warning, .parser, ""⟩ else s)

private theorem unlocated_parseTokens (s : Session) (tokens : List Token) :
    ((s.parseTokens tokens).1.map (List.map Stmt.unlocated), (s.parseTokens tokens).2.unlocated) =
      s.unlocated.parseUnlocated (ObjScript.parse s.typedefs (tokens.map Token.unlocated)) := by
  rw [parse_unlocated]
  unfold parseTokens parseUnlocated
  cases ObjScript.parse s.typedefs tokens with
  | mk r c =>
    obtain ⟨rest, error?, typedefs, unfinished⟩ := c
    cases r with
    | error b => rfl
    | ok stmts =>
      cases error? with
      | none => rfl
      | some e => exact congrArg (Prod.mk _) (unlocated_log_warning _ _ _)

/-! ### Sessions that differ in places alone -/

section Alike

variable {s s' : Session} {tokens tokens' : List Token} {stmts stmts' : List Stmt}

private theorem parseTokens_alike (hs : s.unlocated = s'.unlocated)
    (ht : tokens.map Token.unlocated = tokens'.map Token.unlocated) :
    (s.parseTokens tokens).1.map (List.map Stmt.unlocated) =
        (s'.parseTokens tokens').1.map (List.map Stmt.unlocated) ∧
      (s.parseTokens tokens).2.unlocated = (s'.parseTokens tokens').2.unlocated := by
  have htypedefs : s.typedefs = s'.typedefs := congrArg (·.typedefs) hs
  have hparse := s.unlocated_parseTokens tokens
  rw [hs, htypedefs, ht, ← s'.unlocated_parseTokens tokens'] at hparse
  exact Prod.mk.inj hparse

private theorem unlocated_resolve (s : Session) (stmts : List Stmt) :
    s.unlocated.resolve (stmts.map Stmt.unlocated) =
      ((s.resolve stmts).1.map Stmt.unlocated, (s.resolve stmts).2.unlocated) :=
  congrArg (fun x : List Stmt × Scopes => (x.1, { s.unlocated with scopes := x.2 }))
    (resolveProgram_unlocated s.scopes stmts)

private theorem resolve_alike (hs : s.unlocated = s'.unlocated)
    (hstmts : stmts.map Stmt.unlocated = stmts'.map Stmt.unlocated) :
    (s.resolve stmts).1.map Stmt.unlocated = (s'.resolve stmts').1.map Stmt.unlocated ∧
      (s.resolve stmts).2.unlocated = (s'.resolve stmts').2.unlocated := by
  have hresolve := s.unlocated_resolve stmts
  rw [hs, hstmts, s'.unlocated_resolve stmts'] at hresolve
  exact (Prod.mk.inj hresolve).imp Eq.symm Eq.symm

private theorem run_alike (hs : s.unlocated = s'.unlocated)
    (hstmts : stmts.map Stmt.unlocated = stmts'.map Stmt.unlocated) :
    (s.run stmts).1 = (s'.run stmts').1 ∧ (s.run stmts).2.unlocated = (s'.run stmts').2.unlocated := by
  obtain ⟨hresolved, hs⟩ := resolve_alike hs hstmts
  have hmachine : (s.resolve stmts).2.machine.unlocated = (s'.resolve stmts').2.machine.unlocated :=
    congrArg (·.machine) hs
  have hrun := (s.resolve stmts).2.machine.unlocated_interpret (s.resolve stmts).1
  rw [hmachine, hresolved, ← (s'.resolve stmts').2.machine.unlocated_interpret (s'.resolve stmts').1] at hrun
  obtain ⟨hend, hmachine⟩ := Prod.mk.inj hrun
  exact ⟨hend, congrArg₂ (fun s m => { s with machine := m }) hs hmachine⟩

private theorem perform_alike (hs : s.unlocated = s'.unlocated)
    (ht : tokens.map Token.unlocated = tokens'.map Token.unlocated) :
    (s.perform tokens).1 = (s'.perform tokens').1 ∧
      (s.perform tokens).2.unlocated = (s'.perform tokens').2.unlocated := by
  obtain ⟨hparsed, hs⟩ := parseTokens_alike hs ht
  unfold perform
  generalize s.parseTokens tokens = p at hparsed hs
  generalize s'.parseTokens tokens' = p' at hparsed hs
  obtain ⟨r, s₁⟩ := p
  obtain ⟨r', s₁'⟩ := p'
  cases r with
  | error b =>
    cases r' with
    | error b' =>
      obtain rfl : b = b' := Except.error.inj hparsed
      exact ⟨rfl, hs⟩
    | ok stmts' => cases hparsed
  | ok stmts =>
    cases r' with
    | error b' => cases hparsed
    | ok stmts' =>
      -- the output begins at the same character in both runs
      have hstart : s₁.machine.printed = s₁'.machine.printed := congrArg (·.machine.printed) hs
      obtain ⟨hend, hs⟩ := run_alike hs (Except.ok.inj hparsed)
      dsimp only
      rw [hstart]
      generalize s₁.run stmts = q at hend hs
      generalize s₁'.run stmts' = q' at hend hs
      obtain ⟨e, s₂⟩ := q
      obtain ⟨e', s₂'⟩ := q'
      obtain rfl : e = e' := hend
      have hprinted : s₂.machine.printed = s₂'.machine.printed := congrArg (·.machine.printed) hs
      cases e with
      | error e => exact ⟨rfl, hs⟩
      | ok u => exact ⟨congrArg (fun printed => Except.ok (outputFrom printed _)) hprinted, hs⟩

end Alike

/-- The bindings at the top level are shown without places. -/
private theorem unlocated_topBindings? (s : Session) : s.unlocated.topBindings? = s.topBindings? := by
  unfold topBindings?
  change ((s.machine.store.unlocated.frame ⟨1⟩).bindings.mapM fun p => do
    return (p.1, ← s.machine.store.unlocated.text? p.2)) = _
  rw [Store.frame_recoded]
  unfold Frame.recoded Bindings.mapAll
  rw [List.mapM_map]
  refine congrArg (fun show? => List.mapM show? _) (funext fun p => ?_)
  change (do return (p.1, ← s.machine.store.unlocated.text? p.2.unlocated)) = _
  rw [Store.text?_recoded]

end Session

/-- The machines show the same to the outside and hold the same bindings, up to the places of code; they have failed
or not, and with the same error. -/
structure Machine.SameEnd (m m' : Machine) : Prop where
  printed : m.printed = m'.printed
  written : m.written = m'.written
  input : m.input = m'.input
  clockReads : m.clockReads = m'.clockReads
  store : m.store.unlocated = m'.store.unlocated
  failure : m.lastFault.map (fun f => (f.kind, f.message)) = m'.lastFault.map fun f => (f.kind, f.message)

private theorem Machine.SameEnd.of_unlocated {m m' : Machine} (h : m.unlocated = m'.unlocated) : m.SameEnd m' where
  printed := congrArg (·.printed) h
  written := congrArg (·.written) h
  input := congrArg (·.input) h
  clockReads := congrArg (·.clockReads) h
  store := congrArg (·.store) h
  failure := by
    have hfault : m.lastFault.map Fault.unlocated = m'.lastFault.map Fault.unlocated := congrArg (·.lastFault) h
    have hshown : (fun f : Fault => (f.kind, f.message)) = (fun f => (f.kind, f.message)) ∘ Fault.unlocated :=
      funext fun f => Prod.ext f.unlocated_kind.symm f.unlocated_message.symm
    rw [hshown, ← Option.map_map, ← Option.map_map, hfault]

/-- The two sessions do the same with the two token lists: they come to the same trees, errors, depths and outputs,
and to the same state, up to places. -/
structure Session.SameBehaviour (s s' : Session) (tokens tokens' : List Token) : Prop where
  trees : (s.parseTokens tokens).1.map (List.map Stmt.unlocated) =
    (s'.parseTokens tokens').1.map (List.map Stmt.unlocated)
  messages : (s.parseTokens tokens).2.errors.map (·.fault.message) =
    (s'.parseTokens tokens').2.errors.map (·.fault.message)
  remaining : (ObjScript.parse s.typedefs tokens).2.remaining.map (fun t => (t.kind, t.text)) =
    (ObjScript.parse s'.typedefs tokens').2.remaining.map fun t => (t.kind, t.text)
  typedefs : (s.parseTokens tokens).2.typedefs = (s'.parseTokens tokens').2.typedefs
  /-- The analysis reports the same depths in the same order. -/
  depths : ∀ stmts stmts', (s.parseTokens tokens).1 = .ok stmts → (s'.parseTokens tokens').1 = .ok stmts' →
    let r := (s.parseTokens tokens).2.resolve stmts
    let r' := (s'.parseTokens tokens').2.resolve stmts'
    r.1.map Stmt.unlocated = r'.1.map Stmt.unlocated ∧ r.2.scopes.stack = r'.2.scopes.stack ∧
      r.2.scopes.classes = r'.2.scopes.classes ∧
      r.2.scopes.reports.map (fun a => (a.kind, a.name.text, a.depth)) =
        r'.2.scopes.reports.map fun a => (a.kind, a.name.text, a.depth)
  /-- The run comes to the same end. -/
  runs : ∀ stmts stmts', (s.parseTokens tokens).1 = .ok stmts → (s'.parseTokens tokens').1 = .ok stmts' →
    let r := (s.parseTokens tokens).2.run stmts
    let r' := (s'.parseTokens tokens').2.run stmts'
    r.1 = r'.1 ∧ r.2.machine.SameEnd r'.2.machine ∧ r.2.topBindings? = r'.2.topBindings?
  /-- All of this together, with what is given back. -/
  output : (s.perform tokens).1 = (s'.perform tokens').1
  state : (s.perform tokens).2.unlocated = (s'.perform tokens').2.unlocated

/-- Token lists that differ in lines and columns alone behave alike on sessions whose states differ in no more. -/
theorem behaviour_ignores_places {s s' : Session} {tokens tokens' : List Token} (hs : s.unlocated = s'.unlocated)
    (ht : tokens.map (fun t => (t.kind, t.text)) = tokens'.map fun t => (t.kind, t.text)) :
    s.SameBehaviour s' tokens tokens' := by
  have htokens := Token.map_unlocated_eq ht
  obtain ⟨htrees, hparsed⟩ := Session.parseTokens_alike hs htokens
  obtain ⟨houtput, hstate⟩ := Session.perform_alike hs htokens
  have hstmts : ∀ {stmts stmts'}, (s.parseTokens tokens).1 = .ok stmts → (s'.parseTokens tokens').1 = .ok stmts' →
      stmts.map Stmt.unlocated = stmts'.map Stmt.unlocated := by
    intro stmts stmts' h h'
    rw [h, h'] at htrees
    exact Except.ok.inj htrees
  refine ⟨htrees, ?_, ?_, congrArg (·.typedefs) hparsed, ?_, ?_, houtput, hstate⟩
  -- messages, remaining tokens and reports are shown without places, so they are those of the states without them
  · have herrors : (s.parseTokens tokens).2.errors.map SyntaxError.unlocated =
        (s'.parseTokens tokens').2.errors.map SyntaxError.unlocated := congrArg (·.errors) hparsed
    have hshown : (fun e : SyntaxError => e.fault.message) = (fun e => e.fault.message) ∘ SyntaxError.unlocated := rfl
    rw [hshown, ← List.map_map, ← List.map_map, herrors]
  · have htypedefs : s.typedefs = s'.typedefs := congrArg (·.typedefs) hs
    have hparse := parse_unlocated s.typedefs tokens
    rw [htypedefs, htokens, parse_unlocated] at hparse
    have hcursor := (Prod.mk.inj hparse).2
    apply Token.map_kind_text_eq
    rw [htypedefs, ← Cursor.unlocated_remaining, ← Cursor.unlocated_remaining, hcursor]
  · intro stmts stmts' h h' r r'
    obtain ⟨hresolved, hscopes⟩ := Session.resolve_alike hparsed (hstmts h h')
    have hreports : r.2.scopes.reports.map Report.unlocated = r'.2.scopes.reports.map Report.unlocated :=
      congrArg (·.scopes.reports) hscopes
    have hshown : (fun a : Report => (a.kind, a.name.text, a.depth)) =
        (fun a => (a.kind, a.name.text, a.depth)) ∘ Report.unlocated := rfl
    refine ⟨hresolved, congrArg (·.scopes.stack) hscopes, congrArg (·.scopes.classes) hscopes, ?_⟩
    rw [hshown, ← Array.map_map, ← Array.map_map, hreports]
  · intro stmts stmts' h h' r r'
    obtain ⟨hend, hs⟩ := Session.run_alike hparsed (hstmts h h')
    refine ⟨hend, .of_unlocated (congrArg (·.machine) hs), ?_⟩
    rw [← r.2.unlocated_topBindings?, ← r'.2.unlocated_topBindings?, hs]

/-- A program that refers twice to one variable and then fails, on one line and on several. -/
theorem behaviour_ignores_places_of_lines :
    let s := Session.initial (Machine.initial [] (fun _ => 0) 30)
    let tokens := (tokenize "int x = 1; print x + x; x - nil;").tokens
    let tokens' := (tokenize "int x =\n 1;\n\n print x\n + x;\nx\n - nil;").tokens
    tokens.map (fun t => (t.kind, t.text)) = tokens'.map (fun t => (t.kind, t.text)) ∧
      s.SameBehaviour s tokens tokens' ∧ (s.perform tokens).1 = .ok "2\n\nERROR" ∧
      (s.perform tokens).2.machine.lastFault.bind Fault.pos? = some ⟨1, 27⟩ ∧
      (s.perform tokens').2.machine.lastFault.bind Fault.pos? = some ⟨7, 2⟩ := by
  intro s tokens tokens'
  have ht : tokens.map (fun t => (t.kind, t.text)) = tokens'.map fun t => (t.kind, t.text) := by decide +kernel
  have houtput : (s.perform tokens).1 = .ok "2\n\nERROR" := by decide +kernel
  have hpos : (s.perform tokens).2.machine.lastFault.bind Fault.pos? = some ⟨1, 27⟩ := by decide +kernel
  have hpos' : (s.perform tokens').2.machine.lastFault.bind Fault.pos? = some ⟨7, 2⟩ := by decide +kernel
  exact ⟨ht, behaviour_ignores_places rfl ht, houtput, hpos, hpos'⟩

end ObjScript
