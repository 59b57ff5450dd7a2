/-!
# The log

Messages about what a run does, each with a level and the part it comes from.  A log keeps the messages
from a threshold on, in the order they came.
-/

namespace ObjScript

/-- How much a message matters. -/
inductive LogLevel where
  | debug | warning
deriving DecidableEq, Repr

namespace LogLevel

/-- The number of the level. -/
def number : LogLevel → Nat
  | debug => 10
  | warning => 30

/-- The name of the level. -/
def name : LogLevel → String
  | debug => "DEBUG"
  | warning => "WARNING"

end LogLevel

/-- The parts that messages come from. -/
inductive LogSource where
  | parser | evaluator | assignments | objects | calls | program
deriving DecidableEq, Repr

/-- How a part is named in the log. -/
def LogSource.name : LogSource → String
  | parser => "mobjc_ref.parser_rd"
  | evaluator => "mobjc_ref.evaluator"
  | assignments => "mobjc_ref.eval.helpers"
  | objects => "mobjc_ref.eval.objects"
  | calls => "mobjc_ref.runtime"
  | program => "mobjc_ref.runner"

/-- A message of the log. -/
structure LogRecord where
  level : LogLevel
  source : LogSource
  message : String
deriving DecidableEq, Repr

/-- The line of a message. -/
def LogRecord.line (r : LogRecord) : String :=
  r.level.name ++ ":" ++ r.source.name ++ ":" ++ r.message ++ "\n"

/-- A log with its threshold. -/
structure Log where
  threshold : Nat
  records : Array LogRecord

namespace Log

/-- Messages of this level are kept. -/
def keeps (log : Log) (level : LogLevel) : Bool :=
  log.threshold ≤ level.number

/-- Adds a message if its level is kept. -/
def add (log : Log) (r : LogRecord) : Log :=
  if log.keeps r.level then { log with records := log.records.push r } else log

/-- All lines of the log. -/
def text (log : Log) : String :=
  String.join (log.records.toList.map LogRecord.line)

end Log

end ObjScript
