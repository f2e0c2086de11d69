import Dialect.Matching.Expectation

/-!
# Matching sequences

The active slots of a sequence are filled in order.  As long as nothing has been
taken, a required slot that stays empty means that the sequence is not there at
all; afterwards it ends the sequence as a partial match with a diagnostic.  A slot
that is matched in part ends the sequence as well.
-/

set_option autoImplicit false

namespace Dialect.Matcher

variable (s : Setting) (attempt : Attempt) (path : Path)

/-- Fills the slots from place `index` on, `tokens` having been taken before. -/
def fillSlots : List (Slot ElementId) → (index tokens : Nat) → Matcher Tally
  | [], _, tokens => return ⟨tokens, true⟩
  | slot :: rest, index, tokens => do
      if !slot.isActive s.options.version then fillSlots rest (index + 1) tokens
      else
        match ← attempt slot.item (path.moveTo index) with
        | .fullMatch n => fillSlots rest (index + 1) (tokens + n)
        | .partialMatch n => return ⟨tokens + n, false⟩
        | .noMatch =>
            if slot.optional then fillSlots rest (index + 1) tokens
            else if tokens = 0 then return ⟨0, false⟩
            else do
              expectedHere s slot.item
              return ⟨tokens, false⟩

/-- Matches a sequence. -/
def sequence (id : ElementId) (slots : List (Slot ElementId)) : Matcher Outcome := do
  let m ← Cursor.mark
  let tally ← fillSlots s attempt path slots 0 0
  if tally.tokens = 0 then
    Cursor.rollback m
    return .noMatch
  Cursor.complete m id
  return tally.outcome

end Dialect.Matcher
