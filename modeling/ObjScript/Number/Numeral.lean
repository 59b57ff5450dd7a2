import ObjScript.Number.Arithmetic
import ObjScript.Number.Decimal
import ObjScript.Text.Digit
import ObjScript.Text.Quoted

/-!
# Numerals

The written forms of numbers.  A decimal numeral is a row of digits of any script with an optional point
and an optional exponent; a named numeral is `inf`, `infinity` or `nan` in any letter case.

`isNumeral` recognises both kinds after an optional sign, and there the letter `i` also stands for its
dotted and dotless forms.  `read?` gives the value; it knows the plain letters only, so a few recognised
names have none.
-/

namespace ObjScript.Number

open ObjScript.Text (decimalValue? isDecimal)

/-- A decimal numeral taken apart. -/
structure Numeral where
  whole : List Char
  fraction : List Char
  exponentNegative : Bool
  exponent : List Char
deriving DecidableEq, Repr

/-- The value of a row of digits. -/
def digitsValue (ds : List Char) : Nat :=
  ds.foldl (fun n c => 10 * n + (decimalValue? c).getD 0) 0

/-- Splits off a sign: whether it was a minus, and what follows. -/
def splitSign : List Char → Bool × List Char
  | '-' :: rest => (true, rest)
  | '+' :: rest => (false, rest)
  | s => (false, s)

namespace Numeral

/-- The exponent with its mark, or nothing. -/
def exponent? : List Char → Option (Bool × List Char)
  | [] => some (false, [])
  | c :: rest =>
    let (negative, ds) := splitSign rest
    if (c = 'e' || c = 'E') && !ds.isEmpty && ds.all isDecimal then some (negative, ds) else none

/-- Reads an unsigned decimal numeral. -/
def ofChars? (s : List Char) : Option Numeral :=
  let whole := s.takeWhile isDecimal
  let (pointed, rest) := match s.dropWhile isDecimal with
    | '.' :: rest => (true, rest)
    | rest => (false, rest)
  let fraction := if pointed then rest.takeWhile isDecimal else []
  let tail := if pointed then rest.dropWhile isDecimal else rest
  if whole.isEmpty && fraction.isEmpty then none
  else (exponent? tail).map fun (negative, ds) => ⟨whole, fraction, negative, ds⟩

/-- The number that the numeral stands for. -/
def value (n : Numeral) : Decimal :=
  let e : Int := digitsValue n.exponent
  { digits := digitsValue (n.whole ++ n.fraction)
    exponent := (if n.exponentNegative then -e else e) - n.fraction.length }

end Numeral

/-- Letter case is ignored. -/
def foldCase (c : Char) : Char := c.toLower

/-- Letter case is ignored, and so is whether an `i` has its dot. -/
def foldDots (c : Char) : Char :=
  if c = 'ı' || c = 'İ' then 'i' else foldCase c

/-- The magnitude of a named numeral, its letters read through `fold`. -/
def named? (fold : Char → Char) (s : List Char) : Option (Bool → Float) :=
  let name := String.ofList (s.map fold)
  if name = "inf" || name = "infinity" then some fun negative => ofMagnitude negative infinityBits
  else if name = "nan" then some fun _ => notANumber
  else none

/-- The text is a numeral. -/
def isNumeral (s : String) : Bool :=
  let body := (splitSign s.toList).2
  (Numeral.ofChars? body).isSome || (named? foldDots body).isSome

/-- The double that the numeral stands for. -/
def read? (s : String) : Option Float :=
  let (negative, body) := splitSign s.toList
  match Numeral.ofChars? body with
  | some n => some (n.value.toFloat negative)
  | none => (named? foldCase body).map (· negative)

/-- A text that stands where a numeral should and has no value. -/
structure BadNumeral where
  text : String
deriving DecidableEq, Repr

/-- What is said about such a text. -/
def BadNumeral.message (b : BadNumeral) : String :=
  "could not convert string to float: " ++ Text.quoted b.text

end ObjScript.Number
