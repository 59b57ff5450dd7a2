/-!
# Ranges of code points

A class of characters given by a standard is kept as a list of closed ranges of code points.
-/

namespace ObjScript.Text

/-- The first and the last code point of a run. -/
abbrev Range := Nat × Nat

/-- The character lies in one of the ranges. -/
def inRanges (ranges : List Range) (c : Char) : Bool :=
  ranges.any fun r => r.1 ≤ c.toNat && c.toNat ≤ r.2

end ObjScript.Text
