import ObjScript.Prompt.Command
import ObjScript.Report
import ObjScript.Syntax.Outline

/-!
# The dialogue at the prompt

Each entry is a command or a piece of source for the session.  A reply is what then appears: output,
messages, and perhaps an empty screen.
-/

namespace ObjScript.Prompt

/-- The state of a dialogue. -/
structure Dialogue where
  session : Session
  trace : Bool

/-- What appears after an entry. -/
structure Reply where
  clearsScreen : Bool
  out : String
  err : String
deriving DecidableEq, Repr

/-- A reply with output and messages. -/
def Reply.texts (out err : String) : Reply :=
  ⟨false, out, err⟩

/-- The first words. -/
def banner : Reply :=
  .texts "mobjc repl - Ctrl-D to exit, / for commands\n" ""

/-- What appears when an entry is broken off. -/
def interrupted : Reply :=
  .texts "KeyboardInterrupt\n" ""

/-- The last line. -/
def farewell : Reply :=
  .texts "\n" ""

/-- A machine for a new session that reads on where the old one stopped. -/
def freshMachine (m : Machine) : Machine :=
  { Machine.initial m.input m.clock m.log.threshold with clockReads := m.clockReads }

/-- Words that switch tracing on. -/
def switchesOn : List String :=
  ["on", "1", "true", "yes"]

/-- Words that switch tracing off. -/
def switchesOff : List String :=
  ["off", "0", "false", "no"]

/-- The new position of the switch for tracing.  Without a word it is turned over. -/
def switch? (trace : Bool) (word : String) : Option Bool :=
  if switchesOn.contains word then some true
  else if switchesOff.contains word then some false
  else if word.isEmpty then some !trace
  else none

namespace Dialogue

/-- Runs a command. -/
def command (d : Dialogue) (c : Command) (arg : String) : Except Escape (Reply × Dialogue) :=
  match c with
  | .clear => .ok (⟨true, "", ""⟩, d)
  | .reset =>
    .ok (.texts "Environment reset.\n" "",
      { d with session := .initial (freshMachine d.session.machine) })
  | .trace =>
    match switch? d.trace arg.toLower with
    | none => .ok (.texts "" "Usage: /py-traceback [on|off]\n", d)
    | some trace =>
      .ok (.texts ("Python traceback: " ++ (if trace then "on" else "off") ++ "\n") "",
        { d with trace := trace })
  | .ast =>
    if arg.isEmpty then .ok (.texts "" "Usage: /ast <source>\n", d)
    else
      match d.session.parse arg with
      | (.error b, _) => .error (.badNumeral b)
      | (.ok stmts, s) =>
        .ok (.texts (outlineProgram stmts).pretty s.diagnostics, { d with session := s })

/-- The output of a piece with a line feed at its end. -/
def endLine (output : String) : String :=
  if output.isEmpty || output.toList.getLast? = some '\n' then output else output ++ "\n"

/-- Runs a piece of source. -/
def evaluate (d : Dialogue) (source : String) : Except Escape (Reply × Dialogue) :=
  let start := d.session.machine.written.length
  match d.session.clearFault.execute source with
  | (.error e, _) => .error e
  | (.ok output, s) =>
    let written := String.ofList (s.machine.written.toList.drop start)
    .ok (.texts (written ++ endLine output) (s.diagnostics ++ s.failureReport d.trace),
      { d with session := s })

/-- Runs a line that starts with a slash: the command's name reaches to the first space. -/
def slashLine (d : Dialogue) (line : List Char) : Except Escape (Reply × Dialogue) :=
  let name := String.ofList (line.takeWhile (· ≠ ' '))
  let arg := String.ofList (Text.trim ((line.dropWhile (· ≠ ' ')).drop 1))
  match Command.ofName? name with
  | some c => d.command c arg
  | none => .ok (.texts "" ("Unknown command: " ++ name ++ "\n"), d)

/-- Answers an entry. -/
def answer (d : Dialogue) (text : String) : Except Escape (Reply × Dialogue) :=
  let entry := normalize text
  let line := Text.trim entry.toList
  if line.isEmpty then .ok (.texts "" "", d)
  else if startsCommand line then d.slashLine line
  else d.evaluate entry

/-- Answers entries one after the other; one that is absent was broken off. -/
def answerAll (d : Dialogue) : List (Option String) → Except Escape (List Reply)
  | [] => .ok []
  | none :: rest => do
    return interrupted :: (← answerAll d rest)
  | some text :: rest => do
    let (reply, d) ← d.answer text
    return reply :: (← answerAll d rest)

/-- A whole dialogue, from the first words to the last line. -/
def replies (d : Dialogue) (entries : List (Option String)) : Except Escape (List Reply) := do
  return banner :: (← d.answerAll entries) ++ [farewell]

end Dialogue

end ObjScript.Prompt
