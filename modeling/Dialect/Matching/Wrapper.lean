import Dialect.Matching.Expectation

/-!
# Matching wrappers

A plain wrapper is an opening delimiter, the content, and a closing delimiter.  A
repeated wrapper may have any number of opening delimiters, each of which is to be
closed by one of its own; without any, the content stands alone and leaves no
wrapper in the tree.

A plain wrapper passes over content that is not active.  In a repeated wrapper such
content counts as content that is not there.

A closing delimiter that is missing is reported, together with the place of the
delimiter it would have closed, unless the content was already incomplete.
-/

set_option autoImplicit false

namespace Dialect.Matcher

variable (s : Setting) (attempt : Attempt) (path : Path)

/-- Matches the content of a wrapper, if it is active. -/
def content (slot : Slot ElementId) : Matcher Outcome :=
  if slot.isActive s.options.version then attempt slot.item (path.moveTo 1)
  else return .noMatch

/-- The tally after `opened` delimiters and the given outcome of the content.
Required content that is not there is reported. -/
def addContent (slot : Slot ElementId) (opened : Nat) : Outcome → Matcher Tally
  | .fullMatch n => return ⟨opened + n, true⟩
  | .partialMatch n => return ⟨opened + n, false⟩
  | .noMatch => do
      if slot.optional then return ⟨opened, true⟩
      expectedHere s slot.item
      return ⟨opened, false⟩

/-- Reports that the closing delimiter of what was opened at `range` is missing. -/
def unclosed (closing : ElementId) (range : TextRange) : Matcher Unit := do
  expected s .E0203 closing
  Cursor.annotate ⟨"opened here", range⟩

/-- Takes a closing delimiter for each of the given opening ones, innermost first,
as far as there are any.  The answer is their number and the opening delimiters
that stay open. -/
def closeAll (closing : ElementId) : List TextRange → Matcher (Nat × List TextRange)
  | [] => return (0, [])
  | range :: outer => do
      if (← attempt closing (path.moveTo 2)).isMatch then
        let (closed, unclosed) ← closeAll closing outer
        return (closed + 1, unclosed)
      else return (0, range :: outer)

/-- Closes what has been opened and adds the closing delimiters to the tally. -/
def close (closing : ElementId) (opened : List TextRange) (tally : Tally) : Matcher Tally := do
  match ← closeAll attempt path closing opened with
  | (closed, []) => return ⟨tally.tokens + closed, tally.complete⟩
  | (closed, innermost :: _) =>
      if tally.complete then unclosed s closing innermost
      return ⟨tally.tokens + closed, false⟩

/-- Matches a plain wrapper. -/
def wrapper (id opening : ElementId) (slot : Slot ElementId) (closing : ElementId) :
    Matcher Outcome := do
  let m ← Cursor.mark
  let range ← (← cursor).currentRange
  if !(← attempt opening (path.moveTo 0)).isMatch then
    Cursor.rollback m
    return .noMatch
  let tally ←
    if slot.isActive s.options.version then
      addContent s slot 1 (← content s attempt path slot)
    else pure ⟨1, true⟩
  let tally ← close s attempt path closing [range] tally
  Cursor.complete m id
  return tally.outcome

/-- Takes opening delimiters as long as there are any; the answer is their ranges,
innermost first.  Each round takes a token, so `rounds` need not be more than the
tokens that are left. -/
def openAll (opening : ElementId) : (rounds : Nat) → (opened : List TextRange) →
    Matcher (List TextRange)
  | 0, _ => throw .stalled
  | rounds + 1, opened => do
      let range ← (← cursor).currentRange
      if (← attempt opening (path.moveTo 0)).isMatch then openAll opening rounds (range :: opened)
      else return opened

/-- Matches a repeated wrapper. -/
def balanced (id opening : ElementId) (slot : Slot ElementId) (closing : ElementId) :
    Matcher Outcome := do
  let m ← Cursor.mark
  let opened ← openAll attempt path opening ((← cursor).remaining + 1) []
  let outcome ← content s attempt path slot
  if opened.isEmpty then
    if outcome.isMatch then Cursor.release m else Cursor.rollback m
    return outcome
  let tally ← addContent s slot opened.length outcome
  let tally ← close s attempt path closing opened tally
  Cursor.complete m id
  return tally.outcome

end Dialect.Matcher
