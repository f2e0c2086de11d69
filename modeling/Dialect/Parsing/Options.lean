/-!
# Options of a parse
-/

set_option autoImplicit false

namespace Dialect

/-- What a caller can set for one parse. -/
structure Options where
  /-- The language version: slots that came later are passed over. -/
  version : Nat := UInt32.size - 1
  /-- Whether a choice keeps its best incomplete alternative. -/
  recovery : Bool := true
  /-- How deeply elements may nest. -/
  maxDepth : Nat := 512
  /-- The text of the token that stands for whatever is still to be written. -/
  placeholder : Option String := none
deriving DecidableEq, Repr

end Dialect
