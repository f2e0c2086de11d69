import Dialect.Prediction.Memo

/-!
# Overlapping alternatives

Two alternatives of a choice overlap when a match of either may begin with the
same token type.  Which of them is taken then depends on the order in which they
are tried, and the author of the grammar is told (`Grammar.overlaps`).  In a
sortable choice an alternative that may begin with an identifier and one that may
not do not overlap: their order is not the author's.
-/

set_option autoImplicit false

namespace Dialect

/-- A choice with overlapping alternatives. -/
structure Overlap where
  element : ElementId
  name : String
  /-- The alternatives that overlap with another, in the order of declaration. -/
  alternatives : List ElementId
  /-- The token types two of them share, in ascending order. -/
  tokens : List TokenTypeId
deriving DecidableEq, Repr

namespace Overlap

/-- The overlap as a reader sees it. -/
def render (overlap : Overlap) : String :=
  "ambiguous one-of elements [" ++ overlap.name ++ "]" ++
    String.join (overlap.alternatives.map fun id => " " ++ Supply.elements.render id)

/-- The token types on account of which two alternatives overlap. -/
def shared (sortable : Bool) (a b : FirstSets) : TokenSet :=
  if sortable && a.identifierShaped != b.identifierShaped then ∅ else a.possible ∩ b.possible

/-- What has been found so far: the places of the alternatives that overlap and
the token types they share. -/
structure Findings where
  places : List Nat
  tokens : TokenSet

/-- The findings after one more pair of alternatives has been compared. -/
def Findings.add (findings : Findings) (i j : Nat) (common : TokenSet) : Findings :=
  if common.isEmpty then findings
  else ⟨i :: j :: findings.places, findings.tokens ∪ common⟩

/-- Compares the alternative at place `j` with all earlier ones. -/
def compareEarlier (sortable : Bool) (j : Nat) (sets : FirstSets) :
    (i : Nat) → List FirstSets → Findings → Findings
  | _, [], findings => findings
  | i, earlier :: rest, findings =>
      compareEarlier sortable j sets (i + 1) rest (findings.add i j (shared sortable earlier sets))

/-- Compares every alternative with all that come before it. -/
def compareAll (sortable : Bool) (sets : List FirstSets) : Findings :=
  (sets.zipIdx).foldl (fun findings (own, j) =>
    compareEarlier sortable j own 0 (sets.take j) findings) ⟨[], ∅⟩

end Overlap

namespace Grammar

/-- The overlap of one element, if it is a choice that has one. -/
def overlap? (g : Grammar) (element : Element ElementId) : Query (Option Overlap) := do
  match element.kind with
  | .oneOf alternatives sortable =>
      let sets ← alternatives.mapM fun slot => g.firsts slot.item
      let findings := Overlap.compareAll sortable sets
      if findings.places.isEmpty then return none
      return some {
        element := element.id
        name := element.name
        alternatives := (alternatives.zipIdx.filter fun (_, i) => i ∈ findings.places).map
          fun (slot, _) => slot.item
        tokens := findings.tokens.toList }
  | _ => return none

/-- All overlaps of a grammar, in the order of its elements. -/
def overlaps (g : Grammar) : Query (List Overlap) := do
  return (← g.elements.toList.mapM g.overlap?).filterMap id

end Grammar

end Dialect
