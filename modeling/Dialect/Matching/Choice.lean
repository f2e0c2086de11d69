import Dialect.Matching.Expectation

/-!
# Matching choices

The alternatives of a choice are tried in order, passing over those that are not
active or cannot begin with the current token.  The first full match is taken.
When there is none, a parse that recovers takes the best partial match: each
attempt is taken back, and the record of the best one is replayed at the end.

The variants of a qualified identifier are tried from the longest to the shortest,
and the first full match is taken.  When there is none, the variant that got
furthest is matched once more, this time reporting where it stops.
-/

set_option autoImplicit false

namespace Dialect.Matcher

variable (s : Setting) (attempt : Attempt) (path : Path)

/-- Whether the first alternative is better than what was kept so far. -/
def improves {α : Type} (outcome : Outcome) : Option (Outcome × α) → Bool
  | none => true
  | some (kept, _) => outcome.isBetterThan kept

/-! ### Alternatives -/

/-- Whether an alternative is worth trying at the current token.  The content of a
chameleon and the placeholder cannot be predicted, so there `unfiltered` is set, and
a predictor that is not selective rules nothing out. -/
def admits (unfiltered : Bool) (current : TokenTypeId) (slot : Slot ElementId) :
    Matcher Bool := do
  if !slot.isActive s.options.version then return false
  if unfiltered || !s.predictor.selective then return true
  s.predictor.couldStart current slot.item

/-- Tries the alternatives from place `index` on.  The answer is the first full
match, or else the best partial match with its record, if one is kept. -/
def tryAlternatives (unfiltered : Bool) (current : TokenTypeId) :
    List (Slot ElementId) → (index : Nat) → Option (Outcome × Snapshot) →
      Matcher (Outcome ⊕ Option (Outcome × Snapshot))
  | [], _, best => return .inr best
  | slot :: rest, index, best => do
      if !(← admits s unfiltered current slot) then
        tryAlternatives unfiltered current rest (index + 1) best
      else do
        let m ← Cursor.mark
        let outcome ← attempt slot.item (path.moveTo index)
        if outcome.isFull then
          Cursor.release m
          return .inl outcome
        if (← get).scan && outcome.isPartial && improves outcome best then
          let snapshot ← Cursor.takeBack m
          tryAlternatives unfiltered current rest (index + 1) (some (outcome, snapshot))
        else do
          Cursor.rollback m
          tryAlternatives unfiltered current rest (index + 1) best

/-- Matches a choice. -/
def oneOf (id : ElementId) : Matcher Outcome := do
  let alternatives ← s.predictor.children id
  let c ← cursor
  match c.current? with
  | none => return .noMatch
  | some current =>
      let type ← s.grammar.vocabulary.get current.kind
      let unfiltered := c.atPlaceholder || type.isChameleon
      match ← tryAlternatives s attempt path unfiltered current.kind alternatives 0 none with
      | .inl outcome => return outcome
      | .inr none => return .noMatch
      | .inr (some (outcome, snapshot)) =>
          Cursor.restore snapshot
          return outcome

/-! ### Variants of a qualified identifier -/

/-- A variant put before the variants that are no longer than it. -/
def insertVariant {α : Type} (variant : List α) : List (List α) → List (List α)
  | [] => [variant]
  | other :: rest =>
      if other.length ≤ variant.length then variant :: other :: rest
      else other :: insertVariant variant rest

/-- The variants from the longest to the shortest, in the given order where they
are of one length. -/
def longestFirst {α : Type} (variants : List (List α)) : List (List α) :=
  variants.foldr insertVariant []

/-- Records that an element of a name is missing, if that is to be reported. -/
def missingPart (report : Bool) (id : ElementId) : Matcher Unit :=
  if report then expected s .E0303 id else return ()

/-- Matches the parts of a variant from place `index` on, `tokens` having been
taken before. -/
def matchParts (separator : ElementId) (report : Bool) :
    List ElementId → (index tokens : Nat) → Matcher Outcome
  | [], _, tokens => return .fullMatch tokens
  | part :: rest, index, tokens => do
      let here := path.moveTo index
      let separated ← if index = 0 then pure true else Outcome.isMatch <$> attempt separator here
      if !separated then
        missingPart s report separator
        return .partialMatch tokens
      let taken := if index = 0 then tokens else tokens + 1
      if !(← attempt part here).isMatch then
        missingPart s report part
        return if taken = 0 then .noMatch else .partialMatch taken
      matchParts separator report rest (index + 1) (taken + 1)

/-- Tries the variants in order.  The answer is the first full match, or else the
best partial match with its variant. -/
def tryVariants (separator : ElementId) :
    List (List ElementId) → Option (Outcome × List ElementId) →
      Matcher (Outcome ⊕ Option (Outcome × List ElementId))
  | [], best => return .inr best
  | variant :: rest, best => do
      let m ← Cursor.mark
      let outcome ← matchParts s attempt path separator false variant 0 0
      if outcome.isFull then
        Cursor.release m
        return .inl outcome
      Cursor.rollback m
      if outcome.isPartial && improves outcome best then
        tryVariants separator rest (some (outcome, variant))
      else tryVariants separator rest best

/-- Matches a qualified identifier. -/
def qualified (id : ElementId) (variants : List (List ElementId)) (separator : ElementId) :
    Matcher Outcome := do
  let m ← Cursor.mark
  match ← tryVariants s attempt path separator (longestFirst variants) none with
  | .inl outcome =>
      Cursor.complete m id
      return outcome
  | .inr (some (_, variant)) =>
      let outcome ← matchParts s attempt path separator true variant 0 0
      Cursor.complete m id
      return outcome
  | .inr none =>
      Cursor.rollback m
      return .noMatch

end Dialect.Matcher
