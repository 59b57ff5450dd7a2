import ObjScript.Eval.Interpreter
import ObjScript.Parser.Program
import ObjScript.Scope.Resolve

/-!
# Sessions

A session runs source piece by piece on one machine.  The class names and type names of earlier pieces stay
known, and so do the scopes.  A piece that does not parse to its end is run as far as it was parsed.
-/

namespace ObjScript

/-- What is kept between the pieces of a program. -/
structure Session where
  machine : Machine
  scopes : Scopes
  typedefs : Names
  classNames : Names
  /-- What was part of no token in the last piece. -/
  unhandled : List String
  /-- The syntax errors of the last piece. -/
  errors : List SyntaxError

namespace Session

/-- A session before its first piece. -/
def initial (machine : Machine) : Session :=
  ⟨machine, Scopes.initial, [], [], [], []⟩

/-- The tokens of a piece.  Its class names are known from then on. -/
def tokenize (s : Session) (source : String) : List Token × Session :=
  let scanned := ObjScript.tokenize source
  (markClasses s.classNames scanned.tokens,
    { s with
      classNames := ObjScript.classNames s.classNames scanned.tokens
      unhandled := scanned.unhandled })

/-- How a token is shown in the log. -/
def tokenNote (t : Token) : String :=
  "[" ++ t.kind.name ++ ": " ++ t.text ++ "]"

/-- The warning about a piece that was not parsed to its end. -/
def syntaxWarning (e : SyntaxError) (remaining : List Token) : LogRecord :=
  ⟨.warning, .parser,
    e.text ++ "; remaining tokens after error: " ++ ", ".intercalate (remaining.map tokenNote)⟩

/-- Adds a message to the log. -/
def log (s : Session) (r : LogRecord) : Session :=
  { s with machine := { s.machine with log := s.machine.log.add r } }

/-- The statements of a piece. -/
def parse (s : Session) (source : String) : Except Number.BadNumeral (List Stmt) × Session :=
  let (tokens, s) := s.tokenize source
  let (result, c) := ObjScript.parse s.typedefs tokens
  let s := { s with typedefs := c.typedefs }
  match result with
  | .error b => (.error b, s)
  | .ok stmts =>
    let s := { s with errors := c.error?.toList }
    match c.error? with
    | none => (.ok stmts, s)
    | some e => (.ok stmts, s.log (syntaxWarning e c.remaining))

/-- Finds the scopes of a piece's references without running it. -/
def resolve (s : Session) (stmts : List Stmt) : List Stmt × Session :=
  let (stmts, scopes) := resolveProgram s.scopes stmts
  (stmts, { s with scopes := scopes })

/-- Runs statements: their scopes are found for all of them before the first one runs. -/
def run (s : Session) (stmts : List Stmt) : Except Escape Unit × Session :=
  let (stmts, s) := s.resolve stmts
  let (result, machine) := s.machine.interpret stmts
  (result, { s with machine := machine })

/-- What has been printed after the first characters, with its escapes expanded. -/
def outputFrom (printed : String) (start : Nat) : String :=
  String.ofList (Text.expandBreakChars (printed.toList.drop start))

/-- Runs a piece and gives what it printed. -/
def execute (s : Session) (source : String) : Except Escape String × Session :=
  match s.parse source with
  | (.error b, s) => (.error (.badNumeral b), s)
  | (.ok stmts, s) =>
    let start := s.machine.printed.length
    match s.run stmts with
    | (.error e, s) => (.error e, s)
    | (.ok (), s) => (.ok (outputFrom s.machine.printed start), s)

/-- Forgets the last failure. -/
def clearFault (s : Session) : Session :=
  { s with machine := { s.machine with lastFault := none } }

/-- The value of a name at the top level, as text. -/
def textOf? (s : Session) (name : String) : Option String × Session :=
  let (v, store) := (Store.read Env.top name).run s.machine.store
  (store.text? v, { s with machine := { s.machine with store := store } })

/-- The names that the program has bound at its top level, with their values as text. -/
def topBindings? (s : Session) : Option (List (String × String)) :=
  (s.machine.store.frame ⟨1⟩).bindings.mapM fun p => do
    return (p.1, ← s.machine.store.text? p.2)

end Session

/-- Runs statements on a new machine; names are looked up at run time unless their scopes are found
first. -/
def runStatements (machine : Machine) (findScopes : Bool) (stmts : List Stmt) :
    Except Escape Unit × Machine :=
  machine.interpret (if findScopes then (resolveProgram Scopes.initial stmts).1 else stmts)

end ObjScript
