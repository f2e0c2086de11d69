/-!
# Ids and their supply

Elements of a grammar and token types of a vocabulary are numbered from zero in
the order in which they are declared, and mentioned everywhere by that number.
Either kind of number has a fixed width, so either supply can run out.
-/

set_option autoImplicit false

namespace Dialect

/-- The place of an element in its grammar. -/
abbrev ElementId := Nat

/-- The place of a token type in its vocabulary. -/
abbrev TokenTypeId := Nat

/-- The two kinds of numbers. -/
inductive Supply where
  | elements
  | tokenTypes
deriving DecidableEq, Repr

/-- Positions in the input and slots of an element are counted below this bound. -/
def countLimit : Nat := UInt64.size

namespace Supply

/-- How many numbers of each kind there are. -/
def capacity : Supply → Nat
  | .elements => UInt32.size
  | .tokenTypes => UInt16.size

/-- What is reported when the supply has run out. -/
def exhaustedMessage : Supply → String
  | .elements => "grammar element arena overflow"
  | .tokenTypes => "token type bundle overflow"

/-- How the number `id` is written. -/
def render : Supply → Nat → String
  | .elements, id => "#" ++ Nat.repr id
  | .tokenTypes, id => "token#" ++ Nat.repr id

end Supply

end Dialect
