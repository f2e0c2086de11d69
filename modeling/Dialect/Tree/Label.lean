import Dialect.Grammar.Element

/-!
# Labels of the lossless tree

A tree that keeps the whole input tells its tokens apart by category and its nodes
by the kind of element that left them.  Each label has a number, its place in
`Label.all`.
-/

set_option autoImplicit false

namespace Dialect

/-- What a node or token of the lossless tree is. -/
inductive Label where
  | whitespace
  | comment
  | keyword
  | function
  | parameter
  | datatype
  | ident
  | operator
  | character
  | literal
  | numeric
  | chameleon
  | unknown
  | root
  | tokenNode
  | identifierNode
  | sequence
  | wrapper
  | iteration
  | qualifiedIdentifier
  | error
deriving DecidableEq, Repr

namespace Label

/-- Every label, in the order of their numbers. -/
def all : List Label :=
  [.whitespace, .comment, .keyword, .function, .parameter, .datatype, .ident, .operator,
    .character, .literal, .numeric, .chameleon, .unknown, .root, .tokenNode, .identifierNode,
    .sequence, .wrapper, .iteration, .qualifiedIdentifier, .error]

def name : Label → String
  | .whitespace => "WHITESPACE"
  | .comment => "COMMENT"
  | .keyword => "KEYWORD"
  | .function => "FUNCTION"
  | .parameter => "PARAMETER"
  | .datatype => "DATATYPE"
  | .ident => "IDENT"
  | .operator => "OPERATOR"
  | .character => "CHARACTER"
  | .literal => "LITERAL"
  | .numeric => "NUMERIC"
  | .chameleon => "CHAMELEON"
  | .unknown => "UNKNOWN"
  | .root => "ROOT"
  | .tokenNode => "TOKEN_NODE"
  | .identifierNode => "IDENTIFIER_NODE"
  | .sequence => "SEQUENCE"
  | .wrapper => "WRAPPER"
  | .iteration => "ITERATION"
  | .qualifiedIdentifier => "QUALIFIED_IDENTIFIER"
  | .error => "ERROR"

/-- The number of a label. -/
def number (label : Label) : Nat := all.idxOf label

/-- The label with the given number. -/
def ofNumber? (number : Nat) : Option Label := all[number]?

def isTrivia : Label → Bool
  | .whitespace | .comment => true
  | _ => false

/-- Whether the label is that of an inner node of a tree without errors. -/
def isNode : Label → Bool
  | .root | .tokenNode | .identifierNode | .sequence | .wrapper | .iteration
  | .qualifiedIdentifier => true
  | _ => false

/-- The label of a token of the given category. -/
def ofCategory : Category → Label
  | .keyword => .keyword
  | .function => .function
  | .parameter => .parameter
  | .datatype => .datatype
  | .identifier => .ident
  | .operator => .operator
  | .character => .character
  | .literal => .literal
  | .numeric => .numeric
  | .chameleon => .chameleon
  | .whitespace => .whitespace
  | .comment => .comment
  | .unknown => .unknown

/-- The label of a node of the given kind. -/
def ofNodeKind : NodeKind → Label
  | .token => .tokenNode
  | .identifier => .identifierNode
  | .sequence => .sequence
  | .wrapper => .wrapper
  | .iteration => .iteration
  | .qualifiedIdentifier => .qualifiedIdentifier

theorem ofNumber?_number (label : Label) : ofNumber? label.number = some label := by
  cases label <;> decide

end Label

end Dialect
