import Dialect.Parsing.Cursor
import Dialect.Parsing.Failure
import Dialect.Parsing.Options
import Dialect.Parsing.Outcome
import Dialect.Prediction.Predictor

/-!
# The progress of a parse

A `Matcher` is a step of a parse.  What stays the same throughout is the
`Setting`; what changes is the `Progress`: the cursor, the depth of nesting, the
reserved words that have been given free at some position (`wave`), and the
reason for which the parse was aborted, once it was.

An aborted parse enters no further element (`enter`), so everything that is under
way ends without a match and hands back its marks.
-/

set_option autoImplicit false

namespace Dialect

/-- What stays the same during a parse. -/
structure Setting where
  grammar : Grammar
  predictor : Predictor
  options : Options
  /-- Whether the caller has withdrawn the parse. -/
  cancelled : Bool

namespace Setting

/-- Whether the token type may come right after the innermost element of a path. -/
def mayFollow (s : Setting) (path : Path) (token : TokenTypeId) : Query Bool :=
  s.predictor.mayFollow s.grammar s.options.version path token

/-- Whether the token type must come right after the innermost element of a path. -/
def mustFollow (s : Setting) (path : Path) (token : TokenTypeId) : Query Bool :=
  s.predictor.mustFollow s.grammar s.options.version path token

end Setting

/-- What changes during a parse. -/
structure Progress where
  cursor : Cursor
  /-- How many elements are entered and not yet left. -/
  depth : Nat
  /-- Whether a choice keeps its best incomplete alternative. -/
  scan : Bool
  /-- The reserved words an identifier may claim, each with the position where it
  may do so. -/
  waved : List (Nat × TokenTypeId)
  failure : Option Failure
  memo : Memo
deriving Repr

/-- A step of a parse. -/
abbrev Matcher := EStateM Fault Progress

/-- A move of the cursor is a step of the parse. -/
instance : MonadLift Cursor.Step Matcher where
  monadLift step := fun ⟨cursor, depth, scan, waved, failure, memo⟩ =>
    match step cursor with
    | .ok value cursor => .ok value ⟨cursor, depth, scan, waved, failure, memo⟩
    | .error fault cursor => .error fault ⟨cursor, depth, scan, waved, failure, memo⟩

/-- A question about the grammar is a step of the parse. -/
instance : MonadLift Query Matcher where
  monadLift query := fun ⟨cursor, depth, scan, waved, failure, memo⟩ =>
    match query memo with
    | .ok value memo => .ok value ⟨cursor, depth, scan, waved, failure, memo⟩
    | .error fault memo => .error fault ⟨cursor, depth, scan, waved, failure, memo⟩

namespace Progress

/-- The state before the first token. -/
def start (s : Setting) (memo : Memo) (tokens : Array Token) : Except Fault Progress := do
  let cursor ← Cursor.ofTokens s.grammar.vocabulary tokens s.options.placeholder
  return { cursor, depth := 0, scan := s.options.recovery, waved := [], failure := none, memo }

/-- Gives a reserved word free at the current position. -/
def wave (p : Progress) (word : TokenTypeId) : Progress :=
  { p with waved := p.waved.insert (p.cursor.position, word) }

/-- Whether a reserved word has been given free at the current position. -/
def isWaved (p : Progress) (word : TokenTypeId) : Bool :=
  p.waved.contains (p.cursor.position, word)

end Progress

namespace Matcher

/-- The cursor as it stands. -/
def cursor : Matcher Cursor := return (← get).cursor

/-- Accounts for entering an element.  The answer is `false` when the parse is
aborted, be it before or just now. -/
def enter (s : Setting) : Matcher Bool := do
  let p ← get
  if p.failure.isSome then return false
  if s.cancelled then
    set { p with failure := some .cancelled }
    return false
  if s.options.maxDepth ≤ p.depth then
    set { p with failure := some (.depthExceeded s.options.maxDepth) }
    return false
  set { p with depth := p.depth + 1 }
  return true

/-- Accounts for leaving an element. -/
def leave : Matcher Unit := do
  if (← get).depth = 0 then throw .surplusLeave
  modify fun p => { p with depth := p.depth - 1 }

end Matcher

/-- How an element is matched as part of the one around it: the element and the
path to it. -/
abbrev Attempt := ElementId → Path → Matcher Outcome

/-- How far the parts of a composite have been matched. -/
structure Tally where
  tokens : Nat
  complete : Bool
deriving DecidableEq, Repr

/-- The outcome of a composite of which something was matched. -/
def Tally.outcome (tally : Tally) : Outcome :=
  if tally.complete then .fullMatch tally.tokens else .partialMatch tally.tokens

end Dialect
