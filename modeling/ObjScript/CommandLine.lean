import ObjScript.Report
import ObjScript.Settings
import ObjScript.Syntax.Outline

/-!
# The command line

The arguments name what is to be done and the source: a file, `-` for the input, or the source itself.
Without a source it is read from the input.  A run that fails ends with exit code 1.
-/

namespace ObjScript.CommandLine

/-- What is done with the source. -/
inductive Mode where
  | run | tokens | ast | tree
deriving DecidableEq, Repr

/-- The mode that a flag asks for. -/
def Mode.ofFlag? : String → Option Mode
  | "--ast" => some .ast
  | "--tree" => some .tree
  | "--tokens" => some .tokens
  | _ => none

/-- How the program ends: with a code, or with a last word. -/
inductive Exit where
  | code (n : Nat)
  | message (text : String)
deriving DecidableEq, Repr

/-- What a program is started with. -/
structure Invocation where
  args : List String
  input : String
  logLevel : Option String
  trace : Option String
  files : List (String × String)
  clock : Nat → Float

/-- What a program leaves behind. -/
structure Outcome where
  out : String
  err : String
  exit : Exit
deriving DecidableEq, Repr

/-- What keeps a program from ending in order. -/
inductive Crash where
  | badLevel (b : BadLevel)
  | escape (e : Escape)
deriving DecidableEq, Repr

/-- Reads the arguments.  The last mode counts, and there is at most one source. -/
def readArgs (mode : Mode) (source : Option String) :
    List String → Except String (Mode × Option String)
  | [] => .ok (mode, source)
  | arg :: rest =>
    match Mode.ofFlag? arg with
    | some mode => readArgs mode source rest
    | none =>
      if arg.startsWith "--" then .error ("Unknown flag: " ++ arg)
      else
        match source with
        | none => readArgs mode (some arg) rest
        | some _ => .error ("Unexpected argument: " ++ arg)

/-- The parts of a path between its slashes, without empty ones and those for the same directory. -/
def pathParts (path : List Char) : List (List Char) :=
  (path.splitOn '/').filter fun part => !(part.isEmpty || part = ['.'])

/-- Two paths name the same file. -/
def sameFile (a b : String) : Bool :=
  (a.toList.head? = some '/') = (b.toList.head? = some '/') && pathParts a.toList = pathParts b.toList

/-- The line ends of other systems become line feeds. -/
def unifyBreaks : List Char → List Char
  | '\r' :: '\n' :: rest => '\n' :: unifyBreaks rest
  | '\r' :: rest => '\n' :: unifyBreaks rest
  | c :: rest => c :: unifyBreaks rest
  | [] => []

/-- The source and what is left of the input for the program. -/
def loadSource (inv : Invocation) (source : Option String) : Except String (String × String) :=
  match source with
  | none | some "-" =>
    if inv.input.isEmpty then .error "No input provided on stdin" else .ok (inv.input, "")
  | some arg =>
    match inv.files.find? fun f => sameFile arg f.1 with
    | some (_, text) => .ok (String.ofList (unifyBreaks text.toList), inv.input)
    | none => .ok (arg, inv.input)

/-- Shows the tokens of the source. -/
def showTokens (s : Session) (source : String) : Outcome :=
  let (tokens, s) := s.tokenize source
  ⟨String.join (tokens.map Token.line), s.machine.log.text ++ s.diagnostics, .code 0⟩

/-- Shows the syntax tree of the source. -/
def showTree (s : Session) (source : String) (view : List Stmt → String) : Except Crash Outcome :=
  match s.parse source with
  | (.error b, _) => .error (.escape (.badNumeral b))
  | (.ok stmts, s) => .ok ⟨view stmts, s.machine.log.text ++ s.diagnostics, .code 0⟩

/-- Runs the source. -/
def runSource (s : Session) (source : String) (trace : Bool) : Except Crash Outcome :=
  match s.execute source with
  | (.error e, _) => .error (.escape e)
  | (.ok output, s) =>
    let out := s.machine.written ++ output
    let err := s.machine.log.text ++ s.diagnostics ++ s.failureReport trace
    match s.machine.lastFault with
    | none => .ok ⟨out, err, .code 0⟩
    | some f =>
      let last : Log := (Log.mk s.machine.log.threshold #[]).add
        ⟨.debug, .program, "program stopped on " ++ f.describe⟩
      .ok ⟨out, err ++ last.text, .code 1⟩

/-- Runs the program. -/
def invoke (inv : Invocation) : Except Crash Outcome := do
  let threshold ← (logThreshold inv.logLevel).mapError Crash.badLevel
  let refuse (text : String) : Except Crash Outcome := .ok ⟨"", "", .message text⟩
  match readArgs .run none inv.args with
  | .error text => refuse text
  | .ok (mode, arg) =>
    match loadSource inv arg with
    | .error text => refuse text
    | .ok (source, input) =>
      let s := Session.initial (.initial (inputLines input) inv.clock threshold)
      match mode with
      | .tokens => return showTokens s source
      | .ast => showTree s source fun stmts => renderLines stmts ++ "\n"
      | .tree => showTree s source fun stmts => (outlineProgram stmts).pretty
      | .run => runSource s source (tracing inv.trace)

end ObjScript.CommandLine
