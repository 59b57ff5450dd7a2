import ObjScript.Session

/-!
# Reports about a session

What the user is told about a piece of source: what could not be cut into tokens, the syntax errors, and a
failure of the run.
-/

namespace ObjScript

/-- What was found in the text of the last piece. -/
def Session.diagnostics (s : Session) : String :=
  let unhandled :=
    if s.unhandled.isEmpty then "" else "Unhandled characters: " ++ " ".intercalate s.unhandled ++ "\n"
  unhandled ++ String.join (s.errors.map fun e => "Parse error: " ++ e.text ++ "\n")

/-- The last failure, with a trace if one is asked for. -/
def Session.failureReport (s : Session) (trace : Bool) : String :=
  match s.machine.lastFault with
  | none => ""
  | some f =>
    "Runtime error: " ++ f.text ++ "\n" ++
      (if trace then "\nPython traceback:\n<traceback>\n" else "")

/-- A token on a line of its own. -/
def Token.line (t : Token) : String :=
  "Tok(" ++ t.kind.name ++ ", " ++ Text.quoted t.text ++ ", " ++ toString t.pos.line ++ ":" ++
    toString t.pos.column ++ ")\n"

end ObjScript
