import ObjScript.Number.Binary

/-!
# Arithmetic on doubles

Addition, subtraction, multiplication, division and the comparisons are those of `Float`.  Here stand
the remainder and the passage to integers, both exact.
-/

namespace ObjScript.Number

/-- The double that is not a number. -/
def notANumber : Float := ofMagnitude false (infinityBits + exponentUnit / 2)

/-- The integer part, for a finite double. -/
def truncate? (x : Float) : Option Int :=
  match parts x with
  | .finite negative m q =>
    let (num, den) := ratio m q
    some (if negative then -((num / den : Nat) : Int) else ((num / den : Nat) : Int))
  | _ => none

/-- The double is finite and has no fractional part. -/
def isIntegral (x : Float) : Bool :=
  match parts x with
  | .finite _ m q => let (num, den) := ratio m q; num % den = 0
  | _ => false

/-- The remainder of a division whose quotient is rounded toward zero.  It has the sign of the
dividend, and it is not a number when the dividend is infinite or the divisor zero. -/
def remainder (x y : Float) : Float :=
  match parts x, parts y with
  | .finite negative m p, .finite _ n q =>
    if n = 0 then notANumber
    else
      let low := min p q
      let r := (m * Nat.pow 2 (p - low).toNat) % (n * Nat.pow 2 (q - low).toNat)
      let (num, den) := ratio r low
      ofRatio negative num den
  | .finite _ _ _, .infinite _ => x
  | _, _ => notANumber

end ObjScript.Number
