import Dialect.Lexicon.Vocabulary
import Dialect.Tree.Label
import Dialect.Tree.Node

/-!
# Lossless trees

The tree of a parse with the whole input in it: white space and comments are put
into the node around them, and what the parse did not take follows the tree, from
its first meaningful token on in a node of its own.
-/

set_option autoImplicit false

namespace Dialect

/-- A tree over the whole input. -/
inductive Lossless where
  | token (label : Label) (text : String)
  | node (label : Label) (children : List Lossless)
deriving Repr

namespace Lossless

/-- The input token as a leaf. -/
def ofToken (vocabulary : Vocabulary) (token : Token) : Lossless :=
  .token (Label.ofCategory ((vocabulary.types[token.kind]?.map TokenType.category).getD .unknown))
    token.text

/-- The input tokens from index `first` up to but not including `stop`, as leaves. -/
def leavesBetween (vocabulary : Vocabulary) (tokens : Array Token) (first stop : Nat) :
    List Lossless :=
  (tokens.extract first stop).toList.map (ofToken vocabulary)

mutual

/-- The tree of a node whose next input token has index `next`: the tokens before
the node, the node, and the index after the last token in it.  A node without
children takes the tokens it covers. -/
def ofNode (vocabulary : Vocabulary) (tokens : Array Token) (next : Nat) :
    Node → List Lossless × Nat
  | ⟨_, kind, _, first, stop, children⟩ =>
      let before := leavesBetween vocabulary tokens next first
      let next := max next first
      let (inside, next) :=
        if children.isEmpty then (leavesBetween vocabulary tokens next stop, max next stop)
        else ofNodes vocabulary tokens next children
      (before ++ [.node (Label.ofNodeKind kind) inside], next)

/-- The trees of neighbouring nodes, one after the other. -/
def ofNodes (vocabulary : Vocabulary) (tokens : Array Token) (next : Nat) :
    List Node → List Lossless × Nat
  | [] => ([], next)
  | head :: rest =>
      let (first, next) := ofNode vocabulary tokens next head
      let (others, next) := ofNodes vocabulary tokens next rest
      (first ++ others, next)

end

/-- The tokens that the parse did not take: white space and comments, and from the
first other token on everything in an error node. -/
def leftOver (vocabulary : Vocabulary) (tokens : List Token) : List Lossless :=
  let isTrivia := fun token : Token => vocabulary.has TokenType.isTrivia token.kind
  let trivia := tokens.takeWhile isTrivia
  let rest := tokens.dropWhile isTrivia
  trivia.map (ofToken vocabulary) ++
    if rest.isEmpty then [] else [.node .error (rest.map (ofToken vocabulary))]

/-- The tree of a parse over its whole input. -/
def ofTree (vocabulary : Vocabulary) (tokens : Array Token) (root : Node) : Lossless :=
  let (inside, next) := ofNode vocabulary tokens 0 root
  .node .root (inside ++ leftOver vocabulary (tokens.toList.drop next))

mutual

/-- The tokens of a tree in order, with their labels. -/
def leaves : Lossless → List (Label × String)
  | .token label text => [(label, text)]
  | .node _ children => leavesAll children

/-- The tokens of neighbouring trees in order, with their labels. -/
def leavesAll : List Lossless → List (Label × String)
  | [] => []
  | tree :: rest => leaves tree ++ leavesAll rest

end

end Lossless

end Dialect
