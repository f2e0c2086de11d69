import Dialect.Grammar.Definition
import Dialect.Supply

/-!
# Elements

The nodes of a grammar.  An element mentions other elements by id.  What a
reference mentions is a parameter `ρ`: while a grammar is put together it is the
name of a rule, in a finished grammar the id of the rule's element.
-/

set_option autoImplicit false

namespace Dialect

/-- What an element is. -/
inductive Kind (ρ : Type) where
  | token (type : TokenTypeId) (text : Option String) (flavor : Option Category)
  | identifier (use : NameUse) (isAlias : Bool) (object : Option String)
  | sequence (slots : List (Slot ElementId))
  | wrapper (opening : ElementId) (content : Slot ElementId) (closing : ElementId)
      (repeated : Bool)
  | oneOf (alternatives : List (Slot ElementId)) (sortable : Bool)
  | iteration (item : ElementId) (separator : Option ElementId)
  | qualified (variants : List (List ElementId)) (separator : ElementId)
  | reference (target : ρ)
deriving DecidableEq, Repr

/-- The kinds of nodes in a parse tree.  Alternatives and references leave no
node of their own: the tree shows what was chosen or referred to. -/
inductive NodeKind where
  | token
  | identifier
  | sequence
  | wrapper
  | iteration
  | qualifiedIdentifier
deriving DecidableEq, Repr

namespace NodeKind

/-- Every node kind. -/
def all : List NodeKind :=
  [.token, .identifier, .sequence, .wrapper, .iteration, .qualifiedIdentifier]

def name : NodeKind → String
  | .token => "Token"
  | .identifier => "Identifier"
  | .sequence => "Sequence"
  | .wrapper => "Wrapper"
  | .iteration => "Iteration"
  | .qualifiedIdentifier => "QualifiedIdentifier"

/-- Tokens and identifiers are the leaves of a parse tree. -/
def isLeaf : NodeKind → Bool
  | .token | .identifier => true
  | _ => false

end NodeKind

namespace Kind

variable {ρ : Type}

/-- The word for this kind of element in messages. -/
def label : Kind ρ → String
  | .token .. => "token"
  | .identifier .. => "identifier"
  | .sequence .. => "sequence"
  | .wrapper .. => "wrapper"
  | .oneOf .. => "one-of"
  | .iteration .. => "iteration"
  | .qualified .. => "qualified-identifier"
  | .reference .. => "reference"

/-- The kind of node a match of this element leaves in the tree, if any. -/
def nodeKind? : Kind ρ → Option NodeKind
  | .token .. => some .token
  | .identifier .. => some .identifier
  | .sequence .. => some .sequence
  | .wrapper .. => some .wrapper
  | .iteration .. => some .iteration
  | .qualified .. => some .qualifiedIdentifier
  | .oneOf .. | .reference .. => none

/-- Whether the element has no elements below it. -/
def isLeaf : Kind ρ → Bool
  | .token .. | .identifier .. => true
  | _ => false

def isIdentifier : Kind ρ → Bool
  | .identifier .. => true
  | _ => false

/-- An identifier that introduces an object other than an alias. -/
def isDefinition : Kind ρ → Bool
  | .identifier .definition false _ => true
  | _ => false

def isAlias : Kind ρ → Bool
  | .identifier _ true _ => true
  | _ => false

/-- The leading slots of a list: those up to and including the first that must
be filled. -/
def leading : List (Slot ElementId) → List ElementId
  | [] => []
  | slot :: rest => slot.item :: if slot.optional then leading rest else []

/-- The elements that may be entered at the token at which this one is entered.
A repeated wrapper may come without delimiters, so its content is among them. -/
def entries : Kind ElementId → List ElementId
  | .token .. | .identifier .. => []
  | .sequence slots => leading slots
  | .wrapper opening content _ repeated =>
      if repeated then [opening, content.item] else [opening]
  | .oneOf alternatives _ => alternatives.map Slot.item
  | .iteration item _ => [item]
  | .qualified variants _ => variants.filterMap List.head?
  | .reference target => [target]

/-- The same kind with what a reference mentions replaced. -/
def link {σ ε : Type} (resolve : ρ → Except ε σ) : Kind ρ → Except ε (Kind σ)
  | .token type text flavor => .ok (.token type text flavor)
  | .identifier use isAlias object => .ok (.identifier use isAlias object)
  | .sequence slots => .ok (.sequence slots)
  | .wrapper opening content closing repeated => .ok (.wrapper opening content closing repeated)
  | .oneOf alternatives sortable => .ok (.oneOf alternatives sortable)
  | .iteration item separator => .ok (.iteration item separator)
  | .qualified variants separator => .ok (.qualified variants separator)
  | .reference target => (resolve target).map .reference

end Kind

/-- One node of a grammar. -/
structure Element (ρ : Type) where
  id : ElementId
  /-- The name of the rule for the root of a rule, and for the elements below it
  that name with their number in the rule. -/
  name : String
  /-- The rule of which this element is the root. -/
  rule : Option String
  parent : Option ElementId
  kind : Kind ρ
deriving DecidableEq, Repr

namespace Element

variable {ρ : Type}

/-- The element as a reader sees it. -/
def render (element : Element ρ) : String := element.kind.label ++ " (" ++ element.name ++ ")"

/-- The same element with what a reference mentions replaced. -/
def link {σ ε : Type} (resolve : ρ → Except ε σ) (element : Element ρ) :
    Except ε (Element σ) :=
  (element.kind.link resolve).map fun kind =>
    { id := element.id, name := element.name, rule := element.rule, parent := element.parent, kind }

end Element

end Dialect
