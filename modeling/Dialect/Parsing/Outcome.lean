/-!
# Outcomes

What came of trying to match an element: nothing, a part of it, or all of it.
Outcomes are ordered from worst to best (`Outcome.compare`).
-/

set_option autoImplicit false

namespace Dialect

/-- The outcome of one attempt, with the number of tokens taken. -/
inductive Outcome where
  | noMatch
  | partialMatch (tokens : Nat)
  | fullMatch (tokens : Nat)
deriving DecidableEq, Repr

namespace Outcome

/-- How many tokens were taken. -/
def tokens : Outcome → Nat
  | .noMatch => 0
  | .partialMatch n | .fullMatch n => n

def isMatch : Outcome → Bool
  | .noMatch => false
  | _ => true

def isFull : Outcome → Bool
  | .fullMatch _ => true
  | _ => false

def isPartial : Outcome → Bool
  | .partialMatch _ => true
  | _ => false

/-- The word for the class of an outcome. -/
def label : Outcome → String
  | .noMatch => "NO_MATCH"
  | .partialMatch _ => "PARTIAL_MATCH"
  | .fullMatch _ => "FULL_MATCH"

/-- The outcome as a reader sees it. -/
def render (outcome : Outcome) : String :=
  outcome.label ++ " (" ++ Nat.repr outcome.tokens ++ " tokens)"

/-- The place of an outcome's class, worst first. -/
def rank : Outcome → Nat
  | .noMatch => 0
  | .partialMatch _ => 1
  | .fullMatch _ => 2

/-- A full match beats a partial one and a partial one beats none; within a
class, more tokens are better. -/
def compare (a b : Outcome) : Ordering :=
  (Ord.compare a.rank b.rank).then (Ord.compare a.tokens b.tokens)

/-- Whether `a` is strictly better than `b`. -/
def isBetterThan (a b : Outcome) : Bool := a.compare b == .gt

/-- Whether `a` may stand before `b` when the worst come first. -/
def notAfter (a b : Outcome) : Bool := a.compare b != .gt

end Outcome

end Dialect
