import Dialect.Parsing.Diagnostic

/-!
# Events

The record of a parse: a flat list in which nodes are opened and closed, tokens
are taken and diagnostics are made.  A tombstone holds the place of a node that
may yet be opened there.
-/

set_option autoImplicit false

namespace Dialect

/-- One entry of the record. -/
inductive Event where
  /-- A place kept by a mark. -/
  | tombstone
  /-- A node of the element is opened; `first` is the input index of the token
  that comes next. -/
  | start (element : ElementId) (first : Nat)
  /-- The token with this input index is taken. -/
  | token (index : Nat)
  /-- The innermost open node is closed. -/
  | finish
  | diagnostic (found : Diagnostic)
deriving DecidableEq, Repr

namespace Event

/-- Changes the first diagnostic of a list of events. -/
def amendFirst (change : Diagnostic → Diagnostic) : List Event → List Event
  | [] => []
  | .diagnostic found :: rest => .diagnostic (change found) :: rest
  | event :: rest => event :: amendFirst change rest

/-- Changes the latest diagnostic of a record. -/
def amendLatest (change : Diagnostic → Diagnostic) (events : Array Event) : Array Event :=
  (amendFirst change events.toList.reverse).reverse.toArray

end Event

end Dialect
