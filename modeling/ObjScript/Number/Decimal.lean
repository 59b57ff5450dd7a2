import ObjScript.Number.Binary

/-!
# Decimal numbers

A decimal number is `digits * 10 ^ exponent`.  `toFloat` rounds it to the nearest double, and `shortest`
finds, for a double, a decimal number with the fewest digits that rounds to it; of two such numbers it
takes the nearer one.
-/

namespace ObjScript.Number

/-- The number `digits * 10 ^ exponent`. -/
structure Decimal where
  digits : Nat
  exponent : Int
deriving DecidableEq, Repr

namespace Decimal

/-- The magnitude bits of the nearest double.  Numbers from `10 ^ 310` on are infinite and numbers below
`10 ^ (-330)` are zero whatever their digits, so that no power beyond these is computed. -/
def magnitudeBits (d : Decimal) : Nat :=
  if d.digits = 0 then 0
  else if 310 ≤ d.exponent then infinityBits
  else if d.exponent < -330 - (d.digits.log2 + 1) then 0
  else
    let (num, den) := unscale 10 d.digits 1 (-d.exponent)
    nearestBits num den

/-- The double nearest to the number. -/
def toFloat (negative : Bool) (d : Decimal) : Float :=
  ofMagnitude negative d.magnitudeBits

end Decimal

/-- The largest `e` with `10 ^ e ≤ num / den`, for a positive fraction: a multiple of `log 2` from below,
corrected by one if need be. -/
def decimalExponent (num den : Nat) : Int :=
  let e := Int.fdiv (binaryExponent num den * 30103) 100000
  let (a, b) := unscale 10 num den (e + 1)
  if b ≤ a then e + 1 else e

/-- Of the two multiples of `10 ^ exponent` beside `num / den`, the nearest that rounds to the double with
these magnitude bits; an exact half goes to the even multiple. -/
def onGrid? (num den bits : Nat) (exponent : Int) : Option Decimal :=
  let (a, b) := unscale 10 num den exponent
  let below : Decimal := ⟨a / b, exponent⟩
  let above : Decimal := ⟨a / b + 1, exponent⟩
  let twice := 2 * (a % b)
  let belowFirst := twice < b || (twice = b && a / b % 2 = 0)
  let (near, far) := if belowFirst then (below, above) else (above, below)
  if near.magnitudeBits = bits then some near
  else if far.magnitudeBits = bits then some far
  else none

/-- All digits of `m * 2 ^ q`. -/
def exactDecimal (m : Nat) (q : Int) : Decimal :=
  if 0 ≤ q then ⟨m * Nat.pow 2 q.toNat, 0⟩ else ⟨m * Nat.pow 5 (-q).toNat, q⟩

/-- A decimal number with the fewest digits that rounds to the double `m * 2 ^ q`.  Seventeen digits
always suffice. -/
def shortest (m : Nat) (q : Int) : Decimal :=
  let (num, den) := ratio m q
  let bits := nearestBits num den
  let top := decimalExponent num den
  ((List.range 17).findSome? fun (n : Nat) => onGrid? num den bits (top - n)).getD (exactDecimal m q)

end ObjScript.Number
