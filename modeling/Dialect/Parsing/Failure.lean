/-!
# Failures

A parse that produces no tree says why.
-/

set_option autoImplicit false

namespace Dialect

/-- Why a parse produced no tree. -/
inductive Failure where
  /-- Nothing at this offset matches the rule. -/
  | noMatch (offset : Nat)
  /-- The grammar has no rule of this name. -/
  | unknownRule (name : String)
  /-- The caller withdrew the parse. -/
  | cancelled
  /-- Elements would have nested more deeply than allowed. -/
  | depthExceeded (limit : Nat)
deriving DecidableEq, Repr

/-- The text shown to the caller. -/
def Failure.message : Failure → String
  | .noMatch offset => "No match for the root rule at offset " ++ Nat.repr offset
  | .unknownRule name => "Unknown rule: " ++ name
  | .cancelled => "Parse cancelled"
  | .depthExceeded limit => "Maximum parse depth of " ++ Nat.repr limit ++ " exceeded"

end Dialect
