import Dialect.Supply

/-!
# Faults

A fault is a use of an operation outside its contract: a mark handed back after
its record is gone, a token whose type no vocabulary issued, a text range that
ends before it starts.  Faults are kept apart from the outcomes a caller has to
expect (a grammar that is refused, an input that does not match).
-/

set_option autoImplicit false

namespace Dialect

/-- Why an operation could not be carried out at all. -/
inductive Fault where
  /-- A number above the supply was asked for. -/
  | exhausted (supply : Supply)
  /-- No element has this id. -/
  | unknownElement (id : ElementId)
  /-- No token type has this id. -/
  | unknownTokenType (id : TokenTypeId)
  /-- A position or a slot was asked for that cannot be counted. -/
  | uncountable (number : Nat)
  /-- A token was taken at the end of the input. -/
  | endOfInput
  /-- The record a mark points at has been undone. -/
  | staleMark (event : Nat)
  /-- A snapshot was replayed away from the place where it was taken. -/
  | strayedSnapshot
  /-- A mark was given up without being handed back. -/
  | lostMark (position : Nat)
  /-- More marks were handed back than taken. -/
  | surplusMark
  /-- A parse ended while marks were still out. -/
  | outstandingMarks (count : Nat)
  /-- More elements were left than entered. -/
  | surplusLeave
  /-- An element was entered below the deepest level. -/
  | tooDeep
  /-- A loop went round without taking a token. -/
  | stalled
  /-- The recorded nodes do not nest. -/
  | unbalancedNodes
  /-- A text range ends before it starts, or beyond the largest offset. -/
  | textRange
deriving DecidableEq, Repr

namespace Fault

/-- The text that goes with a fault, for the faults that have one. -/
def message? : Fault → Option String
  | .exhausted supply => some supply.exhaustedMessage
  | .strayedSnapshot => some "snapshot restored away from its mark"
  | .lostMark position =>
      some ("marker at position " ++ Nat.repr position ++ " was never completed")
  | _ => none

end Fault

namespace Supply

/-- The id with the given number, if the supply reaches that far. -/
def issue (supply : Supply) (number : Nat) : Except Fault Nat :=
  if number < supply.capacity then .ok number else .error (.exhausted supply)

end Supply

/-- A check that needs no state can be made by a step that has one. -/
instance {σ : Type} : MonadLift (Except Fault) (EStateM Fault σ) where
  monadLift
    | .ok value => pure value
    | .error fault => throw fault

end Dialect
