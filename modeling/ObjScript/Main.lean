import ObjScript.CommandLine
import ObjScript.Prompt.Dialogue
import Std.Time.DateTime.Timestamp

/-!
# The program

Hands the arguments, the environment, the input and the named files to the command line and writes what it
answers.  Without a source and at a terminal a dialogue begins.
-/

namespace ObjScript.Main

/-- The files among the arguments. -/
def readFiles (args : List String) : IO (List (String × String)) := do
  let files ← args.mapM fun (arg : String) => do
    try
      return some (arg, ← IO.FS.readFile arg)
    catch _ =>
      return none
  return files.filterMap id

/-- The time in seconds. -/
def now : IO Float := do
  let t ← Std.Time.Timestamp.now
  return t.toNanosecondsSinceUnixEpoch.val.toNat.toFloat / 1000000000

/-- Reads an entry line by line until it is complete; there is none at the end of the input. -/
partial def readEntry (input output : IO.FS.Stream) (text : String) : IO (Option String) := do
  output.putStr (if text.isEmpty then ">>> " else "... ")
  output.flush
  let line ← input.getLine
  if line.isEmpty then
    return if text.isEmpty then none else some text
  else if Prompt.enter (text ++ line) = [.submit] then
    return some (text ++ line)
  else
    readEntry input output (text ++ line)

/-- Writes a reply. -/
def write (output errors : IO.FS.Stream) (reply : Prompt.Reply) : IO Unit := do
  if reply.clearsScreen then
    output.putStr "\x1b[2J\x1b[H"
  output.putStr reply.out
  output.flush
  errors.putStr reply.err

/-- Goes on with a dialogue until the input ends. -/
partial def converse (input output errors : IO.FS.Stream) (d : Prompt.Dialogue) : IO UInt32 := do
  match ← readEntry input output "" with
  | none =>
    write output errors Prompt.farewell
    return 0
  | some text =>
    match d.answer text with
    | .ok (reply, d) =>
      write output errors reply
      converse input output errors d
    | .error (.badNumeral b) =>
      errors.putStrLn b.message
      return 1
    | .error .unfinished => return 1

/-- Starts the program. -/
def start (args : List String) : IO UInt32 := do
  let input ← IO.getStdin
  let output ← IO.getStdout
  let errors ← IO.getStderr
  let time ← now
  let logLevel ← IO.getEnv logLevelVariable
  let trace ← IO.getEnv traceVariable
  if args.isEmpty && (← input.isTty) then
    write output errors Prompt.banner
    converse input output errors
      ⟨.initial (.initial [] (fun _ => time) LogLevel.warning.number), tracing trace⟩
  else
    let text ← if ← input.isTty then pure "" else input.readToEnd
    match CommandLine.invoke ⟨args, text, logLevel, trace, ← readFiles args, fun _ => time⟩ with
    | .error (.badLevel b) =>
      errors.putStrLn b.message
      return 1
    | .error (.escape (.badNumeral b)) =>
      errors.putStrLn b.message
      return 1
    | .error (.escape .unfinished) => return 1
    | .ok r =>
      output.putStr r.out
      output.flush
      errors.putStr r.err
      match r.exit with
      | .code n => return UInt32.ofNat n
      | .message text =>
        errors.putStrLn text
        return 1

end ObjScript.Main

/-- The entry point. -/
def main (args : List String) : IO UInt32 :=
  ObjScript.Main.start args
