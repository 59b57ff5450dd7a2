/-!
# Doubles as scaled integers

Every finite double is `m * 2 ^ q` up to its sign.  `parts` reads this off the bits of a double, and
`ofRatio` goes back: it rounds a quotient of natural numbers to the nearest double, an exact half to
the one with even `m`, and what is too large to infinity.

The magnitude bits of a double (all but the sign) count the doubles from zero upward, so that a
carry out of the rounded `m` moves into the exponent by itself.
-/

namespace ObjScript.Number

/-- What a double stands for. -/
inductive Parts where
  /-- The number `m * 2 ^ q`, negated if `negative`. -/
  | finite (negative : Bool) (m : Nat) (q : Int)
  | infinite (negative : Bool)
  | nan
deriving DecidableEq, Repr

/-- The exponent of the smallest doubles. -/
def leastExponent : Int := -1074

/-- The weight of the exponent field in the bits of a double. -/
def exponentUnit : Nat := Nat.pow 2 52

/-- The magnitude bits of infinity. -/
def infinityBits : Nat := 2047 * exponentUnit

/-- The weight of the sign bit. -/
def signUnit : Nat := Nat.pow 2 63

/-- Takes the bits of a double apart. -/
def Parts.ofBits (bits : Nat) : Parts :=
  let negative := signUnit ≤ bits
  let field := bits % signUnit / exponentUnit
  let fraction := bits % exponentUnit
  if field = 2047 then
    if fraction = 0 then .infinite negative else .nan
  else if field = 0 then .finite negative fraction leastExponent
  else .finite negative (exponentUnit + fraction) (leastExponent + (field - 1))

/-- What the double stands for. -/
def parts (x : Float) : Parts :=
  Parts.ofBits x.toBits.toNat

/-- The double with these magnitude bits. -/
def ofMagnitude (negative : Bool) (bits : Nat) : Float :=
  Float.ofBits (UInt64.ofNat (if negative then signUnit + bits else bits))

/-- The quotient rounded to an integer, an exact half to the even neighbour. -/
def roundHalfEven (num den : Nat) : Nat :=
  let q := num / den
  let r := num % den
  if 2 * r < den then q else if den < 2 * r then q + 1 else q + q % 2

/-- The fraction `num / den` divided by `base ^ e`. -/
def unscale (base num den : Nat) (e : Int) : Nat × Nat :=
  if 0 ≤ e then (num, den * Nat.pow base e.toNat) else (num * Nat.pow base (-e).toNat, den)

/-- The largest `e` with `2 ^ e ≤ num / den`, for a positive fraction. -/
def binaryExponent (num den : Nat) : Int :=
  let e : Int := (num.log2 : Int) - den.log2
  let (a, b) := unscale 2 num den e
  if b ≤ a then e else e - 1

/-- The magnitude bits of the double nearest to `num / den`. -/
def nearestBits (num den : Nat) : Nat :=
  if num = 0 then 0
  else
    let q := max (binaryExponent num den - 52) leastExponent
    let (a, b) := unscale 2 num den q
    min ((q - leastExponent).toNat * exponentUnit + roundHalfEven a b) infinityBits

/-- The double nearest to `num / den`. -/
def ofRatio (negative : Bool) (num den : Nat) : Float :=
  ofMagnitude negative (nearestBits num den)

/-- The number `m * 2 ^ q` as a fraction. -/
def ratio (m : Nat) (q : Int) : Nat × Nat :=
  unscale 2 m 1 (-q)

end ObjScript.Number
