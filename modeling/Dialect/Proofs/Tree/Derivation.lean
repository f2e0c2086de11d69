import Dialect.Proofs.Parsing.Moves
import Dialect.Tree.Node

/-!
# Derivations

What it means that a tree derives a stretch of the input from an element of a grammar, at a
version of the language (`Derives`).  The definition speaks of the grammar, the tokens and
the tree alone.

A choice and a reference leave no node of their own, so the tree is that of the alternative
or of the target.  The same goes for a repeated wrapper without delimiters.
-/

set_option autoImplicit false

namespace Dialect

/-- The node covers the tokens from one position up to another. -/
structure Node.Spans (input : Input) (i j : Nat) (node : Node) : Prop where
  nonempty : i < j
  inside : j ≤ input.size
  first_eq : node.first = input.indexAt i
  stop_eq : node.stop = input.indexAt (j - 1) + 1

/-- The node is of the given element and kind and covers the tokens from one position up to
another; its range goes from the start of the first token to the end of the last. -/
structure Node.Over (input : Input) (id : ElementId) (kind : NodeKind) (i j : Nat)
    (children : List Node) (node : Node) : Prop extends Node.Spans input i j node where
  element_eq : node.element = id
  kind_eq : node.kind = kind
  children_eq : node.children = children
  range_start : ∃ token, input.token? i = some token ∧ node.range.start = token.offset
  range_stop : ∃ token, input.token? (j - 1) = some token ∧
    node.range.stop = token.offset + token.text.utf8ByteSize

section

variable (g : Grammar) (version : Nat) (input : Input)

mutual

/-- The tree derives the tokens from one position up to another from the element. -/
inductive Derives : ElementId → Nat → Nat → Node → Prop
  /-- A token element takes a token of its type, with its text if it has one. -/
  | token {id type text flavor i current node}
      (stands : g.kind? id = some (.token type text flavor))
      (current_eq : input.token? i = some current) (type_eq : current.kind = type)
      (text_eq : ∀ word ∈ text, Token.sameWord current.text word = true)
      (covers : node.Over input id .token i (i + 1) []) : Derives id i (i + 1) node
  /-- An identifier element takes an identifier or a reserved word that may be read as one. -/
  | identifier {id use isAlias object i current type node}
      (stands : g.kind? id = some (.identifier use isAlias object))
      (current_eq : input.token? i = some current)
      (type_eq : g.vocabulary.types[current.kind]? = some type)
      (named : type.isIdentifier = true ∨ type.isSuppressible = true)
      (covers : node.Over input id .identifier i (i + 1) []) : Derives id i (i + 1) node
  | sequence {id slots i j children node} (stands : g.kind? id = some (.sequence slots))
      (fills : Fills slots i j children) (covers : node.Over input id .sequence i j children) :
      Derives id i j node
  /-- A plain wrapper has one pair of delimiters. -/
  | wrapper {id opening slot closing i m n j first middle last node}
      (stands : g.kind? id = some (.wrapper opening slot closing false))
      (opens : Derives opening i m first) (encloses : Encloses slot m n middle)
      (closes : Derives closing n j last)
      (covers : node.Over input id .wrapper i j (first :: middle ++ [last])) : Derives id i j node
  /-- A repeated wrapper has as many closing delimiters as opening ones. -/
  | balanced {id opening slot closing count i m n j first middle last node}
      (stands : g.kind? id = some (.wrapper opening slot closing true)) (positive : 0 < count)
      (opens : Repeats opening count i m first) (encloses : Encloses slot m n middle)
      (closes : Repeats closing count n j last)
      (covers : node.Over input id .wrapper i j (first ++ middle ++ last)) : Derives id i j node
  | bare {id opening slot closing i j node}
      (stands : g.kind? id = some (.wrapper opening slot closing true))
      (active : slot.isActive version = true) (content : Derives slot.item i j node) :
      Derives id i j node
  | oneOf {id alternatives sortable slot i j node}
      (stands : g.kind? id = some (.oneOf alternatives sortable)) (member : slot ∈ alternatives)
      (active : slot.isActive version = true) (chosen : Derives slot.item i j node) :
      Derives id i j node
  | iteration {id item separator i j children node}
      (stands : g.kind? id = some (.iteration item separator))
      (lists : Lists item separator i j children)
      (covers : node.Over input id .iteration i j children) : Derives id i j node
  | qualified {id variants separator variant i j children node}
      (stands : g.kind? id = some (.qualified variants separator)) (member : variant ∈ variants)
      (names : Names separator variant i j children)
      (covers : node.Over input id .qualifiedIdentifier i j children) : Derives id i j node
  | reference {id target i j node} (stands : g.kind? id = some (.reference target))
      (meant : Derives target i j node) : Derives id i j node

/-- The trees derive the active slots in order; only optional ones are left out. -/
inductive Fills : List (Slot ElementId) → Nat → Nat → List Node → Prop
  | done (i) : Fills [] i i []
  | pass {slot rest i j nodes} (inactive : slot.isActive version = false)
      (others : Fills rest i j nodes) : Fills (slot :: rest) i j nodes
  | leave {slot rest i j nodes} (optional : slot.optional = true)
      (others : Fills rest i j nodes) : Fills (slot :: rest) i j nodes
  | fill {slot rest i m j node nodes} (active : slot.isActive version = true)
      (first : Derives slot.item i m node) (others : Fills rest m j nodes) :
      Fills (slot :: rest) i j (node :: nodes)

/-- The content of a wrapper; it is left out only where it is optional or not active. -/
inductive Encloses : Slot ElementId → Nat → Nat → List Node → Prop
  | fill {slot i j node} (active : slot.isActive version = true)
      (content : Derives slot.item i j node) : Encloses slot i j [node]
  | leave {slot i} (empty : slot.optional = true ∨ slot.isActive version = false) :
      Encloses slot i i []

/-- The element a number of times. -/
inductive Repeats : ElementId → Nat → Nat → Nat → List Node → Prop
  | done {item} (i) : Repeats item 0 i i []
  | more {item count i m j node nodes} (first : Derives item i m node)
      (others : Repeats item count m j nodes) : Repeats item (count + 1) i j (node :: nodes)

/-- Items with a separator between any two, if there is one. -/
inductive Lists : ElementId → Option ElementId → Nat → Nat → List Node → Prop
  | one {item separator i j node} (only : Derives item i j node) : Lists item separator i j [node]
  | more {item i m j node nodes} (first : Derives item i m node)
      (others : Lists item none m j nodes) : Lists item none i j (node :: nodes)
  | separated {item between i m n j node comma nodes} (first : Derives item i m node)
      (separates : Derives between m n comma) (others : Lists item (some between) n j nodes) :
      Lists item (some between) i j (node :: comma :: nodes)

/-- The parts of a name with a separator between any two. -/
inductive Names : ElementId → List ElementId → Nat → Nat → List Node → Prop
  | one {separator part i j node} (only : Derives part i j node) : Names separator [part] i j [node]
  | more {separator part other rest i m n j node dot nodes} (first : Derives part i m node)
      (separates : Derives separator m n dot) (others : Names separator (other :: rest) n j nodes) :
      Names separator (part :: other :: rest) i j (node :: dot :: nodes)

end

end

end Dialect
