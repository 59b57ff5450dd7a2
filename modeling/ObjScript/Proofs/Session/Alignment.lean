import ObjScript.Proofs.Eval.Execution
import ObjScript.Proofs.Parser.Source

/-!
# Sessions follow the analysis

A session with the notes about its runs: the scope that each frame was made for, the references that were
evaluated, and the nodes that the analysis came to.  The notes change nothing about the session, and every
reference was evaluated in a chain of frames that follows the scopes of the analysis
(`frames_follow_scopes`).
-/

namespace ObjScript

/-- What the analysis of the next piece starts from: only the reports are its own. -/
def Session.known (s : Session) : Scopes :=
  { s.scopes with reports := #[] }

/-- Runs one piece after the other and gives the result of each. -/
def Session.executeAll (s : Session) : List String → List (Except Escape String) × Session
  | [] => ([], s)
  | source :: rest =>
    let (result, s) := s.execute source
    let (results, s) := s.executeAll rest
    (result :: results, s)

/-- A session with the notes about its runs. -/
structure TrackedSession where
  session : Session
  origins : Array Opener
  sightings : List Sighting
  /-- The nodes that the analysis came to, in all pieces. -/
  visits : List Visit

namespace TrackedSession

/-- A session before its first piece. -/
def initial (machine : Machine) : TrackedSession :=
  ⟨.initial machine, #[.builtins, .program], [], []⟩

/-- The machine of the session with the notes. -/
def tracked (t : TrackedSession) : Tracked :=
  ⟨t.session.machine, t.origins, t.sightings⟩

/-- The session goes on without a run. -/
def withSession (t : TrackedSession) (s : Session) : TrackedSession :=
  { t with session := s }

/-- Runs statements once their scopes are found. -/
def run (t : TrackedSession) (stmts : List Stmt) : Except Escape Unit × TrackedSession :=
  let (resolved, s) := t.session.resolve stmts
  let visits := Stmt.visitsList stmts t.session.known [.program]
  let (result, σ) := t.tracked.interpret resolved
  (result, ⟨{ s with machine := σ.machine }, σ.origins, σ.sightings, t.visits ++ visits⟩)

/-- Runs a piece and gives what it printed. -/
def execute (t : TrackedSession) (source : String) : Except Escape String × TrackedSession :=
  match t.session.parse source with
  | (.error b, s) => (.error (.badNumeral b), t.withSession s)
  | (.ok stmts, s) =>
    let start := s.machine.printed.length
    match (t.withSession s).run stmts with
    | (.error e, t) => (.error e, t)
    | (.ok (), t) => (.ok (Session.outputFrom t.session.machine.printed start), t)

/-- Runs one piece after the other and gives the result of each. -/
def executeAll (t : TrackedSession) : List String → List (Except Escape String) × TrackedSession
  | [] => ([], t)
  | source :: rest =>
    let (result, t) := t.execute source
    let (results, t) := t.executeAll rest
    (result :: results, t)

end TrackedSession

section Steps

variable {π : Plan} {t : TrackedSession}

/-- What is known about a session between two pieces. -/
structure TrackedSession.Inv (π : Plan) (t : TrackedSession) : Prop where
  machine : π.Inv t.tracked
  /-- Only the scope of the program is open. -/
  top : ∃ names, t.session.scopes.stack = [names]

/-- Statements run alike with the notes and without them. -/
private theorem TrackedSession.Inv.run (hπ : π.forgets = false) (ht : t.Inv π) {stmts : List Stmt}
    (hv : ∀ v ∈ Stmt.visitsList stmts t.session.known [.program], π.known v) :
    t.session.run stmts = ((t.run stmts).1, (t.run stmts).2.session) ∧ (t.run stmts).2.Inv π := by
  obtain ⟨names, hs⟩ := ht.top
  have hdepth : π.depth = id := by simp [Plan.depth, hπ]
  have hs : t.session.known.stack = [names] := hs
  obtain ⟨r, τ, hrun, hplain, hτ⟩ := ht.machine.interpret hs (fun h => Bool.noConfusion (h.symm.trans hπ)) hv
  rw [hdepth, Machine.withDepths_id, Machine.withDepths_id, Stmt.withDepthsList_id] at hplain
  let after (m : Machine) : Session := { t.session with
    scopes := (Stmt.resolveList stmts).next t.session.known
    machine := m }
  have hresult : t.run stmts = (r, ⟨after τ.machine, τ.origins, τ.sightings, _⟩) :=
    congrArg (fun x : Except Escape Unit × Tracked =>
      (x.1, TrackedSession.mk (after x.2.machine) x.2.origins x.2.sightings _)) hrun
  have hsession : t.session.run stmts = (r, after τ.machine) :=
    congrArg (fun x : Except Escape Unit × Machine => (x.1, after x.2)) hplain
  have hstack : ((Stmt.resolveList stmts).next t.session.known).stack = [names.addAll (Stmt.declaredList stmts)] :=
    (Stmt.stack_nextList stmts t.session.known).trans (congrArg (declareTop _) hs)
  rw [hresult]
  exact ⟨hsession, hτ, _, hstack⟩

/-- A piece is read without a run. -/
private theorem TrackedSession.Inv.parse (ht : t.Inv π) (source : String) :
    (t.withSession (t.session.parse source).2).Inv π := by
  obtain ⟨⟨log, hmachine⟩, hscopes⟩ := t.session.parse_frame source
  refine ⟨?_, ?_⟩
  · refine ht.machine.ofStore (.ofFrames rfl ?_) rfl ?_ ?_ ht.machine.sightings
    · exact congrArg (·.store.frames) hmachine
    · exact congrArg (·.store.frames) hmachine
    · change (t.session.parse source).2.machine.store.Holds _ _
      rw [hmachine]
      exact ht.machine.store
  · change ∃ names, (t.session.parse source).2.scopes.stack = [names]
    rw [hscopes]
    exact ht.top

/-- The result of a piece leaves the session as it is after the run. -/
private theorem TrackedSession.execute_snd (t : TrackedSession) {source : String} {stmts : List Stmt} {s : Session}
    (h : t.session.parse source = (.ok stmts, s)) : (t.execute source).2 = ((t.withSession s).run stmts).2 := by
  unfold TrackedSession.execute
  rw [h]
  dsimp only
  split
  · next hrun => rw [hrun]
  · next hrun => rw [hrun]

/-- A piece runs alike with the notes and without them. -/
private theorem TrackedSession.Inv.execute (hπ : π.forgets = false) (ht : t.Inv π) {source : String}
    (hv : ∀ v ∈ (t.execute source).2.visits, v.node.AsParsed → π.known v) :
    t.session.execute source = ((t.execute source).1, (t.execute source).2.session) ∧ (t.execute source).2.Inv π := by
  have hparse := ht.parse source
  cases h : t.session.parse source with
  | mk result s =>
    rw [h] at hparse
    cases result with
    | error b =>
      unfold TrackedSession.execute Session.execute
      rw [h]
      exact ⟨rfl, hparse⟩
    | ok stmts =>
      rw [t.execute_snd h] at hv ⊢
      have hnodes := Stmt.forall_visitsList stmts s.known [.program] (Session.asParsed_parse h)
      have hknown : ∀ v ∈ Stmt.visitsList stmts s.known [.program], π.known v :=
        fun v hmem => hv v (List.mem_append_right _ hmem) (hnodes v hmem)
      obtain ⟨hrun, hinv⟩ := hparse.run hπ hknown
      refine ⟨?_, hinv⟩
      change s.run stmts = _ at hrun
      unfold TrackedSession.execute Session.execute
      rw [h]
      dsimp only
      rw [hrun]
      cases (t.withSession s).run stmts with
      | mk r t' => cases r <;> rfl

private theorem TrackedSession.visits_execute (t : TrackedSession) (source : String) :
    t.visits ⊆ (t.execute source).2.visits := by
  cases h : t.session.parse source with
  | mk result s =>
    cases result with
    | error b =>
      unfold TrackedSession.execute
      rw [h]
      exact List.Subset.refl _
    | ok stmts =>
      rw [t.execute_snd h]
      exact List.subset_append_left _ _

private theorem TrackedSession.visits_executeAll (t : TrackedSession) (sources : List String) :
    t.visits ⊆ (t.executeAll sources).2.visits := by
  induction sources generalizing t with
  | nil => exact List.Subset.refl _
  | cons source rest ih => exact List.Subset.trans (t.visits_execute source) (ih (t.execute source).2)

/-- All pieces run alike with the notes and without them. -/
private theorem TrackedSession.Inv.executeAll (hπ : π.forgets = false) (ht : t.Inv π) (sources : List String)
    (hv : ∀ v ∈ (t.executeAll sources).2.visits, v.node.AsParsed → π.known v) :
    t.session.executeAll sources = ((t.executeAll sources).1, (t.executeAll sources).2.session) ∧
      (t.executeAll sources).2.Inv π := by
  induction sources generalizing t with
  | nil => exact ⟨rfl, ht⟩
  | cons source rest ih =>
    have hlater := (t.execute source).2.visits_executeAll rest
    obtain ⟨hfirst, hinv⟩ := ht.execute hπ fun v hmem => hv v (hlater hmem)
    obtain ⟨hrest, hinv⟩ := ih hinv hv
    refine ⟨?_, hinv⟩
    unfold Session.executeAll
    rw [hfirst]
    dsimp only
    rw [hrest]
    rfl

end Steps

/-- However a session goes, each reference that was evaluated stands in a chain of frames that follows the stack of
scopes with which the analysis came to the reference. -/
theorem frames_follow_scopes (input : List String) (clock : Nat → Float) (threshold : Nat) (sources : List String) :
    let machine := Machine.initial input clock threshold
    let (results, t) := (TrackedSession.initial machine).executeAll sources
    (results, t.session) = (Session.initial machine).executeAll sources ∧
      ∀ g ∈ t.sightings, ∃ v ∈ t.visits, ∃ frames, Aligned t.origins g v frames := by
  intro machine
  let t := ((TrackedSession.initial machine).executeAll sources).2
  let π : Plan := ⟨fun v => v ∈ t.visits ∧ v.node.AsParsed, false, [], fun _ hv => hv.2, nofun, nofun⟩
  have hstart : (TrackedSession.initial machine).Inv π := ⟨π.inv_initial input clock threshold, [], rfl⟩
  obtain ⟨hsame, hinv⟩ := hstart.executeAll rfl sources fun v hv hparsed => ⟨hv, hparsed⟩
  refine ⟨hsame.symm, fun g hg => ?_⟩
  obtain ⟨v, frames, hv, ha⟩ := hinv.machine.sightings g hg
  exact ⟨v, hv.1, frames, ha⟩

end ObjScript
