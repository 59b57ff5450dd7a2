import ObjScript.Log
import ObjScript.Number.Numeral

/-!
# Settings from the environment

Two variables matter: the threshold of the log, as a number or as the name of a level, and a switch for
tracing failures.
-/

namespace ObjScript

/-- The variable with the threshold of the log. -/
def logLevelVariable : String := "MOBJC_LOG_LEVEL"

/-- The variable with the switch for tracing. -/
def traceVariable : String := "MOBJC_DEBUG_PY_TRACE"

/-- The number of digits that a level may have. -/
def maxLevelDigits : Nat := 4300

/-- Why a text of digits is no level: one of them has no place value, or there are too many. -/
inductive BadLevel where
  | noValue (text : String)
  | tooLong (digits : Nat)
deriving DecidableEq, Repr

/-- What is said about such a text, of which no more than 200 characters are shown. -/
def BadLevel.message : BadLevel → String
  | noValue text =>
    "invalid literal for int() with base 10: " ++ String.ofList ((Text.quoted text).toList.take 200)
  | tooLong digits =>
    "Exceeds the limit (" ++ toString maxLevelDigits ++
      " digits) for integer string conversion: value has " ++ toString digits ++
      " digits; use sys.set_int_max_str_digits() to increase the limit"

/-- The levels by name. -/
def namedLevel? : String → Option Nat
  | "CRITICAL" | "FATAL" => some 50
  | "ERROR" => some 40
  | "WARNING" | "WARN" => some 30
  | "INFO" => some 20
  | "DEBUG" => some 10
  | "NOTSET" => some 0
  | _ => none

/-- The capital of a letter, as far as it is a plain letter. -/
def capital (c : Char) : Char :=
  if c = 'ı' then 'I' else if c = 'ſ' then 'S' else c.toUpper

/-- The level that a text of digits gives.  The digits before the first one without a place value are
counted, and only then is that one looked at. -/
def levelOfDigits (cs : List Char) : Except BadLevel Nat :=
  let valued := cs.takeWhile Text.isDecimal
  if maxLevelDigits < valued.length then .error (.tooLong valued.length)
  else if valued.length < cs.length then .error (.noValue (String.ofList cs))
  else .ok (Number.digitsValue cs)

/-- The threshold that a text gives.  Without a usable text it is that of warnings. -/
def logThreshold (raw : Option String) : Except BadLevel Nat :=
  let standard := LogLevel.warning.number
  match raw with
  | none => .ok standard
  | some raw =>
    let cs := raw.toList
    if cs.isEmpty then .ok standard
    else if cs.all Text.isDigit then levelOfDigits cs
    else .ok ((namedLevel? (String.ofList (cs.map capital))).getD standard)

/-- Failures are traced. -/
def tracing (raw : Option String) : Bool :=
  raw = some "1"

end ObjScript
