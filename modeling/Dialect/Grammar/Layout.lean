import Dialect.Grammar.Element
import Dialect.Lexicon.Vocabulary

/-!
# The layout of a rule

A definition is laid out as a block of elements: first the element itself, then
the blocks of what it is made of, from left to right.  The ids of a block are
consecutive, so the place of every element follows from the sizes of the blocks
before it, and every element but the first lies after the one that contains it.

Layout refuses a definition at the first fault met in this order.
-/

set_option autoImplicit false

namespace Dialect

/-- A reference as it is written: the rule it occurs in and the rule it names. -/
structure Mention where
  rule : String
  target : String
deriving DecidableEq, Repr

namespace Definition

/-- Only identifiers and tokens may be parts of a qualified identifier. -/
def isPart : Definition → Bool
  | .token .. | .identifier .. => true
  | _ => false

end Definition

namespace Layout

/-- What is the same for all elements of one rule. -/
structure Scope where
  vocabulary : Vocabulary
  rule : String
  /-- The id of the first element of the rule. -/
  root : ElementId

/-- A block of consecutive elements. -/
abbrev Block := List (Element Mention)

/-- The element with the given id.  The first element of a rule has the rule's
name; the others are numbered after it. -/
def element (scope : Scope) (parent : Option ElementId) (id : ElementId) (kind : Kind Mention) :
    Element Mention :=
  if id = scope.root then ⟨id, scope.rule, some scope.rule, parent, kind⟩
  else ⟨id, scope.rule ++ "#" ++ Nat.repr (id - scope.root), none, parent, kind⟩

/-- Refuses an element for which there is no id. -/
def reserve (id : ElementId) : Except DefinitionError Unit :=
  if id < Supply.elements.capacity then .ok () else .error (.exhausted .elements)

/-- The block of a token element. -/
def token (scope : Scope) (parent : Option ElementId) (id : ElementId) (type : String)
    (text : Option String) (flavor : Option Category) : Except DefinitionError Block := do
  reserve id
  let type ← scope.vocabulary.resolve type
  return [element scope parent id (.token type text flavor)]

/-- The block of a token element without restrictions: a delimiter or a separator. -/
def delimiter (scope : Scope) (parent : ElementId) (id : ElementId) (type : String) :
    Except DefinitionError Block :=
  token scope (some parent) id type none none

mutual

/-- The block of a definition whose first element has the given id. -/
def block [Alphabet] (scope : Scope) (parent : Option ElementId) (id : ElementId) :
    Definition → Except DefinitionError Block
  | .token type text flavor => token scope parent id type text flavor
  | .identifier use isAlias object => do
      reserve id
      return [element scope parent id (.identifier use isAlias object)]
  | .sequence slots => do
      reserve id
      if slots.isEmpty then throw (.empty .sequence scope.rule)
      let (slots, below) ← slotBlocks scope id (id + 1) slots
      return element scope parent id (.sequence slots) :: below
  | .wrapper opening ⟨content, optional, since⟩ closing repeated => do
      reserve id
      let first ← delimiter scope id (id + 1) opening
      let inner := id + 1 + first.length
      let middle ← block scope (some id) inner content
      let final := inner + middle.length
      let last ← delimiter scope id final closing
      return element scope parent id (.wrapper (id + 1) ⟨inner, optional, since⟩ final repeated) ::
        (first ++ middle ++ last)
  | .oneOf alternatives sortable => do
      reserve id
      if alternatives.isEmpty then throw (.empty .oneOf scope.rule)
      let (alternatives, below) ← slotBlocks scope id (id + 1) alternatives
      return element scope parent id (.oneOf alternatives sortable) :: below
  | .iteration item separator => do
      reserve id
      let below ← block scope (some id) (id + 1) item
      match separator with
      | none => return element scope parent id (.iteration (id + 1) none) :: below
      | some separator =>
          let place := id + 1 + below.length
          let last ← delimiter scope id place separator
          return element scope parent id (.iteration (id + 1) (some place)) :: (below ++ last)
  | .qualified variants separator => do
      reserve id
      if variants.isEmpty || variants.any List.isEmpty then
        throw (.empty .qualifiedVariant scope.rule)
      let (variants, below) ← variantBlocks scope id (id + 1) variants
      let place := id + 1 + below.length
      let last ← delimiter scope id place separator
      return element scope parent id (.qualified variants place) :: (below ++ last)
  | .reference rule => do
      reserve id
      if !Name.isValid rule then throw (.invalidName .rule rule)
      return [element scope parent id (.reference ⟨scope.rule, rule⟩)]

/-- The blocks of the slots of a composite, from `next` on, and the slots with
the ids of their blocks. -/
def slotBlocks [Alphabet] (scope : Scope) (parent : ElementId) (next : ElementId) :
    List (Slot Definition) → Except DefinitionError (List (Slot ElementId) × Block)
  | [] => return ([], [])
  | ⟨item, optional, since⟩ :: rest => do
      let first ← block scope (some parent) next item
      let (slots, below) ← slotBlocks scope parent (next + first.length) rest
      return (⟨next, optional, since⟩ :: slots, first ++ below)

/-- The blocks of the parts of one variant. -/
def partBlocks [Alphabet] (scope : Scope) (parent : ElementId) (next : ElementId) :
    List Definition → Except DefinitionError (List ElementId × Block)
  | [] => return ([], [])
  | part :: rest => do
      if !part.isPart then throw (.compositePart scope.rule)
      let first ← block scope (some parent) next part
      let (parts, below) ← partBlocks scope parent (next + first.length) rest
      return (next :: parts, first ++ below)

/-- The blocks of all variants of a qualified identifier. -/
def variantBlocks [Alphabet] (scope : Scope) (parent : ElementId) (next : ElementId) :
    List (List Definition) → Except DefinitionError (List (List ElementId) × Block)
  | [] => return ([], [])
  | variant :: rest => do
      let (parts, first) ← partBlocks scope parent next variant
      let (variants, below) ← variantBlocks scope parent (next + first.length) rest
      return (parts :: variants, first ++ below)

end

end Layout

end Dialect
