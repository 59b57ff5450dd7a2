import ObjScript.Number.Arithmetic
import ObjScript.Number.Decimal

/-!
# Numbers as text

A program sees a number in its shortest form (`text`): whole numbers below `10 ^ 16` without a point,
others with the fewest digits that read back, positional from `10 ^ (-4)` to `10 ^ 16` and with an
exponent of at least two digits beyond.  A literal in a syntax tree is shown with all digits when it is a
whole number (`literalText`).
-/

namespace ObjScript.Number

/-- The decimal digits of a natural number. -/
def digitChars (n : Nat) : List Char :=
  Nat.toDigits 10 n

/-- Digits without the zeros at their end. -/
def dropTrailingZeros (ds : List Char) : List Char :=
  (ds.reverse.dropWhile (· = '0')).reverse

/-- Places the point before the digit number `point`, with zeros where there are no digits. -/
def positional (ds : List Char) (point : Int) : List Char :=
  if point ≤ 0 then '0' :: '.' :: (List.replicate (-point).toNat '0' ++ ds)
  else if point.toNat < ds.length then ds.take point.toNat ++ '.' :: ds.drop point.toNat
  else ds ++ List.replicate (point.toNat - ds.length) '0' ++ ['.', '0']

/-- One digit before the point, and the exponent with its sign and at least two digits. -/
def scientific (ds : List Char) (exponent : Int) : List Char :=
  let mantissa := match ds with
    | d :: e :: rest => d :: '.' :: e :: rest
    | _ => ds
  let sign := if exponent < 0 then '-' else '+'
  mantissa ++ 'e' :: sign :: (digitChars exponent.natAbs).leftpad 2 '0'

/-- The text of a positive decimal number. -/
def Decimal.chars (d : Decimal) : List Char :=
  let all := digitChars d.digits
  let point := d.exponent + all.length
  let ds := dropTrailingZeros all
  if -4 ≤ point - 1 && point - 1 < 16 then positional ds point else scientific ds (point - 1)

/-- A minus sign for negative numbers. -/
def signChars (negative : Bool) : List Char :=
  if negative then ['-'] else []

/-- The text of a double with the fewest digits. -/
def shortestText (x : Float) : String :=
  match parts x with
  | .nan => "nan"
  | .infinite negative => String.ofList (signChars negative ++ ['i', 'n', 'f'])
  | .finite negative m q =>
    String.ofList (signChars negative ++ (if m = 0 then ['0', '.', '0'] else (shortest m q).chars))

/-- The text of a number of the language. -/
def text (x : Float) : String :=
  match truncate? x with
  | some i =>
    if isIntegral x && i.natAbs < Nat.pow 10 16 then String.ofList (signChars (i < 0) ++ digitChars i.natAbs)
    else shortestText x
  | none => shortestText x

/-- The text of a number literal in a syntax tree. -/
def literalText (x : Float) : String :=
  match parts x with
  | .finite negative m q =>
    let (num, den) := ratio m q
    if num % den = 0 then String.ofList (signChars negative ++ digitChars (num / den))
    else shortestText x
  | _ => shortestText x

end ObjScript.Number
