import Dialect.Lexicon.Category

/-!
# Definitions

What the author of a dialect writes: rules, each a name and a tree that mentions
token types and other rules by name.
-/

set_option autoImplicit false

namespace Dialect

/-- A place in a composite, and what stands there. -/
structure Slot (α : Type) where
  item : α
  /-- Whether the place may stay empty. -/
  optional : Bool
  /-- The language version from which on the place exists. -/
  since : Nat
deriving DecidableEq, Repr

namespace Slot

/-- A place that is there in every version and must be filled. -/
def required {α : Type} (item : α) : Slot α := ⟨item, false, 0⟩

/-- The same place, filled with something else. -/
def replace {α β : Type} (slot : Slot α) (item : β) : Slot β := ⟨item, slot.optional, slot.since⟩

/-- Whether the place exists in the given language version. -/
def isActive {α : Type} (version : Nat) (slot : Slot α) : Bool := slot.since ≤ version

end Slot

/-- Whether an identifier refers to an object or introduces one. -/
inductive NameUse where
  | reference
  | definition
deriving DecidableEq, Repr

/-- The definition of one element, with token types and rules by name. -/
inductive Definition where
  /-- A token of one type, perhaps with a fixed text; `flavor` overrides the
  category of the type in this place. -/
  | token (type : String) (text : Option String) (flavor : Option Category)
  /-- An identifier. -/
  | identifier (use : NameUse) (isAlias : Bool) (object : Option String)
  /-- The places filled in order. -/
  | sequence (slots : List (Slot Definition))
  /-- The content between two delimiters: exactly one pair of them, or when
  `repeated` any number of pairs. -/
  | wrapper (opening : String) (content : Slot Definition) (closing : String) (repeated : Bool)
  /-- Exactly one of the alternatives. -/
  | oneOf (alternatives : List (Slot Definition)) (sortable : Bool)
  /-- One item or more, perhaps with a separator between them. -/
  | iteration (item : Definition) (separator : Option String)
  /-- A name of several parts; each variant lists the parts it has. -/
  | qualified (variants : List (List Definition)) (separator : String)
  /-- Whatever the named rule stands for. -/
  | reference (rule : String)
deriving Repr

/-- A named definition. -/
structure Rule where
  name : String
  definition : Definition
deriving Repr

end Dialect
