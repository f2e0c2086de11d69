import Dialect.Tree.Lossless

/-!
# Trees read with every access checked

A tree is read together with the tokens it was made from.  `Node.texts` and
`Lossless.ofTree` make do with whatever tokens they are given; here a token that is
not there, a stretch that ends before it starts and a type that was never issued are
faults.
-/

set_option autoImplicit false

namespace Dialect

/-- The tokens from index `first` up to but not including `stop`. -/
def Token.slice (tokens : Array Token) (first stop : Nat) : Except Fault (List Token) :=
  if first ≤ stop ∧ stop ≤ tokens.size then .ok (tokens.extract first stop).toList
  else .error .endOfInput

/-- The texts of the tokens that the leaves of the tree take. -/
def Node.textsChecked (tokens : Array Token) (node : Node) : Except Fault (List String) := do
  let taken ← (node.preorder.filter fun node => node.kind.isLeaf).mapM fun leaf =>
    Token.slice tokens leaf.first leaf.stop
  return taken.flatMap fun slice => slice.map Token.text

namespace Lossless

/-- The input token as a leaf. -/
def ofTokenChecked (vocabulary : Vocabulary) (token : Token) : Except Fault Lossless := do
  let type ← vocabulary.get token.kind
  return .token (Label.ofCategory type.category) token.text

/-- The input tokens from index `first` up to but not including `stop`, as leaves. -/
def leavesBetweenChecked (vocabulary : Vocabulary) (tokens : Array Token) (first stop : Nat) :
    Except Fault (List Lossless) :=
  (List.range' first (stop - first)).mapM fun index => do
    ofTokenChecked vocabulary (← Assembly.tokenAt tokens index)

mutual

/-- The tree of a node whose next input token has index `next`, and the index after the
last token in it. -/
def ofNodeChecked (vocabulary : Vocabulary) (tokens : Array Token) (next : Nat) :
    Node → Except Fault (List Lossless × Nat)
  | ⟨_, kind, _, first, stop, children⟩ => do
      let before ← leavesBetweenChecked vocabulary tokens next first
      let next := max next first
      let (inside, next) ←
        if children.isEmpty then do
          pure (← leavesBetweenChecked vocabulary tokens next stop, max next stop)
        else ofNodesChecked vocabulary tokens next children
      return (before ++ [.node (Label.ofNodeKind kind) inside], next)

/-- The trees of neighbouring nodes, one after the other. -/
def ofNodesChecked (vocabulary : Vocabulary) (tokens : Array Token) (next : Nat) :
    List Node → Except Fault (List Lossless × Nat)
  | [] => return ([], next)
  | head :: rest => do
      let (first, next) ← ofNodeChecked vocabulary tokens next head
      let (others, next) ← ofNodesChecked vocabulary tokens next rest
      return (first ++ others, next)

end

/-- The tokens that the parse did not take, from the first one on that is neither white
space nor a comment in an error node. -/
def leftOverChecked (vocabulary : Vocabulary) : List Token → Except Fault (List Lossless)
  | [] => return []
  | head :: rest => do
      let type ← vocabulary.get head.kind
      if type.isTrivia then
        return (← ofTokenChecked vocabulary head) :: (← leftOverChecked vocabulary rest)
      else return [.node .error (← (head :: rest).mapM (ofTokenChecked vocabulary))]

/-- The tree of a parse over its whole input. -/
def ofTreeChecked (vocabulary : Vocabulary) (tokens : Array Token) (root : Node) :
    Except Fault Lossless := do
  let (inside, next) ← ofNodeChecked vocabulary tokens 0 root
  let rest ← Token.slice tokens next tokens.size
  return .node .root (inside ++ (← leftOverChecked vocabulary rest))

end Lossless

end Dialect
