import Dialect.Grammar.Basic
import Dialect.Lexicon.Token
import Dialect.Parsing.Event

/-!
# Parse trees

The record of a parse describes a forest: nodes are opened and closed in it, and a
token belongs to the innermost node that is open when it is taken.  A node covers
what lies between the first and the last token taken inside it.
`Node.ofEvents?` reads the record of a parse whose root left a node.
-/

set_option autoImplicit false

namespace Dialect

/-- A node of a parse tree. -/
structure Node where
  element : ElementId
  kind : NodeKind
  range : TextRange
  /-- The input index of the first token. -/
  first : Nat
  /-- The input index after the last token. -/
  stop : Nat
  children : List Node
deriving Repr

namespace Node

mutual

/-- The node and all nodes below it, each before those below it. -/
def preorder : Node → List Node
  | node@⟨_, _, _, _, _, children⟩ => node :: preorderAll children

/-- The nodes of a forest, each before those below it. -/
def preorderAll : List Node → List Node
  | [] => []
  | node :: rest => preorder node ++ preorderAll rest

end

/-- The texts of the tokens that the leaves of the tree take. -/
def texts (tokens : Array Token) (node : Node) : List String :=
  (node.preorder.filter fun node => node.kind.isLeaf).flatMap fun leaf =>
    ((tokens.extract leaf.first leaf.stop).toList.map Token.text)

end Node

/-- What a node covers: the input index of its first token and that after its
last. -/
structure Span where
  first : Nat
  stop : Nat
deriving DecidableEq, Repr

/-- The least span that contains both. -/
def Span.join? : Option Span → Span → Span
  | none, span => span
  | some known, span => ⟨min known.first span.first, max known.stop span.stop⟩

/-- A node that is not closed yet. -/
structure OpenNode where
  element : ElementId
  /-- The token before which the node was opened. -/
  first : Nat
  span : Option Span
  /-- The children closed so far, last first. -/
  children : List Node

/-- What has been read of a record. -/
structure Assembly where
  /-- The nodes that are open, innermost first. -/
  stack : List OpenNode
  /-- The closed nodes that no open node contains, last first. -/
  roots : List Node
  /-- The diagnostics met so far, last first. -/
  diagnostics : List Diagnostic

namespace Assembly

/-- What has been read before the first event. -/
def empty : Assembly := ⟨[], [], []⟩

/-- The token with the given index is taken by the innermost open node. -/
def take (a : Assembly) (span : Span) : Assembly :=
  match a.stack with
  | [] => a
  | top :: outer => { a with stack := { top with span := some (Span.join? top.span span) } :: outer }

/-- The closed node becomes a child of the innermost open node, or else a root. -/
def attach (a : Assembly) (node : Node) : Assembly :=
  match a.stack with
  | [] => { a with roots := node :: a.roots }
  | top :: outer =>
      let span := if node.first < node.stop then some (Span.join? top.span ⟨node.first, node.stop⟩)
        else top.span
      { a with stack := { top with span, children := node :: top.children } :: outer }

/-- The input token with the given index. -/
def tokenAt (tokens : Array Token) (index : Nat) : Except Fault Token :=
  match tokens[index]? with
  | some token => .ok token
  | none => .error .endOfInput

/-- The offset of a node without tokens: that of the token before which it was
opened, or else the end of the input. -/
def emptyOffset (tokens : Array Token) (first : Nat) : Except Fault Nat :=
  match tokens[first]?, tokens.back? with
  | some token, _ => return token.offset
  | none, some last => return (← last.range).stop
  | none, none => return 0

/-- The node that results from closing an open one. -/
def close (tokens : Array Token) (kind : NodeKind) (top : OpenNode) : Except Fault Node :=
  match top.span with
  | some span => do
      let start := (← (← tokenAt tokens span.first).range).start
      let stop := (← (← tokenAt tokens (span.stop - 1)).range).stop
      let range ← TextRange.between start stop
      return ⟨top.element, kind, range, span.first, span.stop, top.children.reverse⟩
  | none => do
      let offset ← emptyOffset tokens top.first
      return ⟨top.element, kind, .emptyAt offset, top.first, top.first, top.children.reverse⟩

/-- Reads one event. -/
def step (g : Grammar) (tokens : Array Token) (a : Assembly) : Event → Except Fault Assembly
  | .tombstone => return a
  | .start element first => return { a with stack := ⟨element, first, none, []⟩ :: a.stack }
  | .token index => return a.take ⟨index, index + 1⟩
  | .diagnostic found => return { a with diagnostics := found :: a.diagnostics }
  | .finish =>
      match a.stack with
      | [] => return a
      | top :: outer => do
          let a := { a with stack := outer }
          match (← g.element top.element).kind.nodeKind? with
          | none => return a
          | some kind => return a.attach (← close tokens kind top)

/-- Reads a whole record. -/
def ofEvents (g : Grammar) (tokens : Array Token) (events : Array Event) :
    Except Fault Assembly := do
  let a ← events.toList.foldlM (step g tokens) empty
  if !a.stack.isEmpty then throw .unbalancedNodes
  return a

end Assembly

namespace Node

/-- The tree that a record describes, if it has exactly one root, and the
diagnostics in the order in which they were made. -/
def ofEvents? (g : Grammar) (tokens : Array Token) (events : Array Event) :
    Except Fault (Option Node × List Diagnostic) := do
  let a ← Assembly.ofEvents g tokens events
  match a.roots with
  | [root] => return (some root, a.diagnostics.reverse)
  | _ => return (none, a.diagnostics.reverse)

end Node

end Dialect
