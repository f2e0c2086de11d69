import Dialect.Matching.Choice
import Dialect.Matching.Iteration
import Dialect.Matching.Leaf
import Dialect.Matching.Sequence
import Dialect.Matching.Wrapper

/-!
# Matching elements

An element is matched according to its kind; the elements below it are matched the
same way, one level deeper.  Elements nest no deeper than the options allow, so the
levels that are left bound the recursion: `matchElement` at depth `d` is called
with at least `maxDepth - d` levels.
-/

set_option autoImplicit false

namespace Dialect.Matcher

/-- Matches an element that has been entered, given a way to match those below it.
`path` ends with the element itself. -/
def matchKind (s : Setting) (attempt : Attempt) (id : ElementId) (path : Path) :
    Kind ElementId → Matcher Outcome
  | .token type text flavor => token s id path type text flavor
  | .identifier .. => identifier s id path
  | .sequence slots => sequence s attempt path id slots
  | .wrapper opening slot closing false => wrapper s attempt path id opening slot closing
  | .wrapper opening slot closing true => balanced s attempt path id opening slot closing
  | .oneOf .. => oneOf s attempt path id
  | .iteration item separator => iteration s attempt path id item separator
  | .qualified variants separator => qualified s attempt path id variants separator
  | .reference target => attempt target path

/-- Matches an element at the cursor as part of what is around it. -/
def matchElement (s : Setting) : (levels : Nat) → Attempt
  | 0, _, _ => do
      if ← enter s then throw .tooDeep
      return .noMatch
  | levels + 1, id, outer => do
      if ← enter s then
        let element ← s.grammar.element id
        let outcome ← matchKind s (matchElement s levels) id (outer.enter id) element.kind
        leave
        return outcome
      return .noMatch

/-- Matches an element at the cursor as part of what is around it, going as deep as
the options allow. -/
def run (s : Setting) (id : ElementId) (outer : Path) : Matcher Outcome :=
  matchElement s s.options.maxDepth id outer

end Dialect.Matcher
