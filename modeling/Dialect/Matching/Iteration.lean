import Dialect.Matching.Expectation

/-!
# Matching iterations

An iteration is one item or more.  Without a separator it goes on as long as items
match.  With one it ends where no separator follows an item; a separator without
an item after it stays taken, and the missing item is reported.
-/

set_option autoImplicit false

namespace Dialect.Matcher

variable (s : Setting) (attempt : Attempt) (path : Path)

/-- Goes on after a complete item, `tokens` having been taken so far.  Each round
takes a token, so `rounds` need not be more than the tokens that are left. -/
def repeatItem (item : ElementId) (separator : Option ElementId) :
    (rounds tokens : Nat) → Matcher Tally
  | 0, _ => throw .stalled
  | rounds + 1, tokens => do
      match separator with
      | none =>
          match ← attempt item (path.moveTo 0) with
          | .noMatch => return ⟨tokens, true⟩
          | .partialMatch n => return ⟨tokens + n, false⟩
          | .fullMatch n => repeatItem item separator rounds (tokens + n)
      | some between =>
          if !(← attempt between (path.moveTo 1)).isMatch then return ⟨tokens, true⟩
          match ← attempt item (path.moveTo 0) with
          | .noMatch =>
              expected s .E0302 item
              return ⟨tokens + 1, false⟩
          | .partialMatch n => return ⟨tokens + 1 + n, false⟩
          | .fullMatch n => repeatItem item separator rounds (tokens + 1 + n)

/-- Matches an iteration. -/
def iteration (id item : ElementId) (separator : Option ElementId) : Matcher Outcome := do
  let m ← Cursor.mark
  match ← attempt item (path.moveTo 0) with
  | .noMatch =>
      Cursor.rollback m
      return .noMatch
  | .partialMatch n =>
      Cursor.complete m id
      return .partialMatch n
  | .fullMatch n =>
      let tally ← repeatItem s attempt path item separator ((← cursor).remaining + 1) n
      Cursor.complete m id
      return tally.outcome

end Dialect.Matcher
