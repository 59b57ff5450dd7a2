import ObjScript.Prompt.Entry

/-!
# Commands and keys

A line that starts with a slash is a command.  Enter hands an entry over or starts another line of it, and
backspace keeps the list of commands open while one is being typed.
-/

namespace ObjScript.Prompt

/-- The commands. -/
inductive Command where
  | ast | clear | trace | reset
deriving DecidableEq, Repr

namespace Command

/-- All commands in the order they are offered. -/
def all : List Command :=
  [ast, clear, trace, reset]

/-- How the command is typed. -/
def name : Command → String
  | ast => "/ast"
  | clear => "/clear"
  | trace => "/py-traceback"
  | reset => "/reset"

/-- What the command does, in a few words. -/
def help : Command → String
  | ast => "Show the syntax tree of a snippet"
  | clear => "Clear the terminal screen"
  | trace => "Toggle Python traceback on errors"
  | reset => "Start over with a fresh interpreter"

/-- The command with this name. -/
def ofName? (s : String) : Option Command :=
  all.find? (·.name = s)

end Command

/-- The text starts with a slash. -/
def startsCommand (text : List Char) : Bool :=
  text.head? = some '/'

/-- The commands that what has been typed may become. -/
def completions (typed : String) : List Command :=
  if startsCommand typed.toList then
    Command.all.filter fun c => typed.toList.isPrefixOf c.name.toList
  else []

/-- What a key does to the text. -/
inductive Edit where
  | submit
  | insert (text : String)
  | delete (count : Nat)
  | complete
deriving DecidableEq, Repr

/-- The text after an edit at its end. -/
def Edit.apply (text : String) : Edit → String
  | submit | complete => text
  | insert more => text ++ more
  | delete count => String.ofList (text.toList.take (text.length - count))

/-- The text after several edits. -/
def applyEdits (text : String) (edits : List Edit) : String :=
  edits.foldl Edit.apply text

/-- What enter does. -/
def enter (text : String) : List Edit :=
  if startsCommand (Text.trimStart text.toList) || !awaitsMore text then [.submit]
  else [.insert ("\n" ++ indent text)]

/-- What backspace does. -/
def backspace (text : String) : List Edit :=
  let edit := Edit.delete 1
  if startsCommand (edit.apply text).toList then [edit, .complete] else [edit]

end ObjScript.Prompt
