import Dialect.Matching.Element
import Dialect.Tree.Node

/-!
# Parsing

A parse matches one rule at the start of the input and reads the tree off the
record.  Input that is left over after the match is reported; it does not make the
parse fail.

Predictions are remembered in the memo of the grammar, which goes into a parse and
comes out of it.  It makes no difference to the answer.
-/

set_option autoImplicit false

namespace Dialect

/-- A tree with the outcome and the diagnostics of the parse. -/
structure Parse where
  root : Node
  outcome : Outcome
  diagnostics : List Diagnostic
deriving Repr

/-- Whether the whole input was matched without a diagnostic. -/
def Parse.ok (parse : Parse) : Bool := parse.outcome.isFull && parse.diagnostics.isEmpty

namespace Matcher

/-- Reports the input that is left over after a match. -/
def reportLeftOver : Matcher Unit := do
  let c ← cursor
  match c.current? with
  | none => return ()
  | some token =>
      let range ← TextRange.between (← c.currentRange).start (← c.endOffset)
      Cursor.report {
        code := .E0103
        message := "unexpected '" ++ token.text ++ "' after statement"
        range }

/-- Matches the element at the start of the input.  The answer is the outcome and
the offset at which the input starts. -/
def matchRoot (s : Setting) (root : ElementId) : Matcher (Outcome × Nat) := do
  let offset := (← (← cursor).currentRange).start
  let outcome ← run s root []
  if outcome.isMatch then reportLeftOver
  return (outcome, offset)

end Matcher

namespace Grammar

/-- The element of the named rule, or the one the grammar starts from. -/
def startAt (g : Grammar) : Option String → Except Failure ElementId
  | none => .ok g.root
  | some name =>
      match g.rule? name with
      | some id => .ok id
      | none => .error (.unknownRule name)

/-- What a finished parse amounts to. -/
def conclude (g : Grammar) (progress : Progress) (outcome : Outcome) (offset : Nat) :
    Except Fault (Except Failure Parse) := do
  match progress.failure with
  | some failure => return .error failure
  | none =>
      if !outcome.isMatch then return .error (.noMatch offset)
      let events ← progress.cursor.finish
      match ← Node.ofEvents? g progress.cursor.tokens events with
      | (some root, diagnostics) => return .ok ⟨root, outcome, diagnostics⟩
      | (none, _) => return .error (.noMatch offset)

/-- Parses the input from the given element on. -/
def parseFrom (s : Setting) (root : ElementId) (tokens : Array Token) :
    Query (Except Failure Parse) := fun memo =>
  match Progress.start s memo tokens with
  | .error fault => .error fault memo
  | .ok progress =>
      match Matcher.matchRoot s root progress with
      | .error fault progress => .error fault progress.memo
      | .ok (outcome, offset) progress =>
          match s.grammar.conclude progress outcome offset with
          | .error fault => .error fault progress.memo
          | .ok answer => .ok answer progress.memo

/-- Parses the input against the named rule, or the one the grammar starts from. -/
def parse (g : Grammar) (tokens : Array Token) (rule : Option String) (options : Options)
    (cancelled : Bool) : Query (Except Failure Parse) :=
  match g.startAt rule with
  | .error failure => return .error failure
  | .ok root => parseFrom ⟨g, .remembering g, options, cancelled⟩ root tokens

/-- Parses several inputs in the same way, with one memo. -/
def parseAll (g : Grammar) (inputs : List (Array Token)) (rule : Option String)
    (options : Options) (cancelled : Bool) : Query (List (Except Failure Parse)) :=
  inputs.mapM fun tokens => g.parse tokens rule options cancelled

end Grammar

end Dialect
