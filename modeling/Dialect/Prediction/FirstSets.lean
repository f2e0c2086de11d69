import Dialect.Grammar.Basic
import Dialect.Lexicon.TokenSet

/-!
# First sets

What can be said about the first token of a match before it is tried: which token
types it may have (`possible`), which it must have (`required`), and whether it
may look like an identifier (`identifierShaped`).  All slots count here, whatever
the language version.

The sets of an element follow from those of the elements it may be entered
through.  `FirstSets.compute` takes the sets that are already known as given and
searches only below the others.
-/

set_option autoImplicit false

namespace Dialect

/-- What is known about the first token of a match of one element. -/
structure FirstSets where
  possible : TokenSet
  required : TokenSet
  identifierShaped : Bool
deriving DecidableEq, Repr

namespace FirstSets

variable (g : Grammar) (known : ElementId → Option FirstSets)

/-- The token types that an element takes itself rather than through another. -/
def ownTokens (id : ElementId) : TokenSet :=
  match g.kind? id with
  | some (.token type ..) => .singleton type
  | some (.identifier ..) =>
      .ofList (g.vocabulary.idsWhere fun type => type.isIdentifier || type.isSuppressible)
  | _ => ∅

/-- Whether an element takes an identifier itself rather than through another. -/
def ownShape (id : ElementId) : Bool :=
  match g.kind? id with
  | some (.token type ..) => g.vocabulary.has TokenType.isIdentifier type
  | some (.identifier ..) => true
  | _ => false

/-- The elements through which `id` may be entered, up to those already known. -/
def closure (id : ElementId) : List ElementId :=
  let next := fun id => if (known id).isSome then [] else g.entries id
  Reach.search next g.elements.size [] [id]

/-- The token types with which a match may begin. -/
def possibleFrom (id : ElementId) : TokenSet :=
  (closure g known id).foldl (fun set id =>
    set ∪ match known id with
      | some sets => sets.possible
      | none => ownTokens g id) ∅

/-- Whether a match may begin with an identifier. -/
def shapeFrom (id : ElementId) : Bool :=
  (closure g known id).any fun id =>
    match known id with
    | some sets => sets.identifierShaped
    | none => ownShape g id

/-- What a set-valued function gives on every one of the listed elements. -/
def meet (f : ElementId → TokenSet) : List ElementId → TokenSet
  | [] => ∅
  | [id] => f id
  | id :: rest =>
      let set := f id
      if set.isEmpty then ∅ else set ∩ meet f rest

/-- The token types with which every match begins, looking at most `depth`
elements deep. -/
def requiredFrom : (depth : Nat) → (id : ElementId) → TokenSet
  | 0, _ => ∅
  | depth + 1, id =>
      match known id with
      | some sets => sets.required
      | none =>
          match g.kind? id with
          | some (.token type ..) => .singleton type
          | some (.sequence (slot :: _)) =>
              if slot.optional then ∅ else requiredFrom depth slot.item
          | some (.wrapper opening _ _ repeated) =>
              if repeated then ∅ else requiredFrom depth opening
          | some (.oneOf alternatives _) => meet (requiredFrom depth) (alternatives.map Slot.item)
          | some (.iteration item _) => requiredFrom depth item
          | some (.qualified variants _) =>
              meet (requiredFrom depth) (variants.filterMap List.head?)
          | some (.reference target) => requiredFrom depth target
          | _ => ∅

/-- The first sets of `id`, given those in `known`. -/
def compute (id : ElementId) : FirstSets where
  possible := possibleFrom g known id
  required := requiredFrom g known g.elements.size id
  identifierShaped := shapeFrom g known id

/-- The first sets of `id`, computed from the grammar alone. -/
def ofElement (id : ElementId) : FirstSets := compute g (fun _ => none) id

end FirstSets

end Dialect
