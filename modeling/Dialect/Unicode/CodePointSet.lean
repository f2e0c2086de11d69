/-!
# Sets of code points

A property of characters is a list of ranges of code points.  Membership is the
only question asked of it (`CodePointSet.contains`).
-/

set_option autoImplicit false

namespace Dialect.Unicode

/-- A set of code points, given by its ranges: first and last code point, both
included. -/
structure CodePointSet where
  ranges : List (Nat × Nat)

/-- Whether the code point of `c` lies in one of the ranges. -/
def CodePointSet.contains (set : CodePointSet) (c : Char) : Bool :=
  set.ranges.any fun range => range.1 ≤ c.toNat && c.toNat ≤ range.2

end Dialect.Unicode
