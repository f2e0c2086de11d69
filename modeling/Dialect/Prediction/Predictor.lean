import Dialect.Prediction.Path

/-!
# Predictors

A parse asks two things about the elements ahead of it: with which tokens a match
may or must begin, and in which order the alternatives of a choice are tried.  A
predictor answers both.  `Predictor.remembering` reads and fills the memo of the
grammar; `Predictor.direct` computes every answer from the grammar alone and leaves
the memo as it is.

What may follow a place in the grammar is asked through a predictor as well
(`Predictor.mayFollow`, `Predictor.mustFollow`).
-/

set_option autoImplicit false

namespace Dialect

/-- Where predictions come from. -/
structure Predictor where
  /-- The first sets of an element. -/
  firsts : ElementId → Query FirstSets
  /-- The slots of a sequence or of a choice in the order in which they are tried. -/
  children : ElementId → Query (List (Slot ElementId))
  /-- Whether a choice passes over the alternatives that cannot begin with the
  current token. -/
  selective : Bool

namespace Predictor

/-- Predictions from the memo, which remembers those that are new. -/
def remembering (g : Grammar) : Predictor where
  firsts := g.firsts
  children := g.children
  selective := true

/-- Predictions computed each time they are asked for. -/
def direct (g : Grammar) : Predictor where
  firsts id := do
    let _ ← g.element id
    return FirstSets.ofElement g id
  children id := do
    match (← g.element id).kind with
    | .sequence slots => return slots
    | .oneOf alternatives false => return alternatives
    | .oneOf alternatives true =>
        return identifiersLast (alternatives.map fun slot =>
          (slot, (FirstSets.ofElement g slot.item).identifierShaped))
    | _ => return []
  selective := true

variable (p : Predictor)

/-- Whether a match of the element may begin with the token type. -/
def couldStart (token : TokenTypeId) (id : ElementId) : Query Bool :=
  return (← p.firsts id).possible.contains token

/-- Whether every match of the element begins with the token type. -/
def shouldStart (token : TokenTypeId) (id : ElementId) : Query Bool :=
  return (← p.firsts id).required.contains token

/-- Whether the token type may come right after the innermost element of a path. -/
def mayFollow (g : Grammar) (version : Nat) (path : Path) (token : TokenTypeId) : Query Bool :=
  path.mayPrecede version g.kindOf (p.couldStart token)

/-- Whether the token type must come right after the innermost element of a path. -/
def mustFollow (g : Grammar) (version : Nat) (path : Path) (token : TokenTypeId) : Query Bool :=
  path.mustPrecede version g.kindOf (p.shouldStart token)

end Predictor

end Dialect
