import Dialect.Lexicon.Token
import Dialect.Lexicon.Vocabulary
import Dialect.Parsing.Event

/-!
# The cursor

A cursor goes through the tokens that carry meaning and keeps the record of what
was done.  Whatever may have to be undone is done under a mark.  A mark is handed
back exactly once, in one of four ways:

* `rollback` goes back to it and forgets everything recorded since;
* `takeBack` goes back to it but hands out what was recorded, as a snapshot that
  `restore` can replay at the same place;
* `release` keeps what was done, without a node;
* `complete` keeps what was done as a node of the tree.

Each operation is a step of type `Cursor.Step`; a fault leaves the cursor as it was.
-/

set_option autoImplicit false

namespace Dialect

/-- A place in the input and the record up to it. -/
structure Cursor where
  /-- The whole input. -/
  tokens : Array Token
  /-- The input indices of the tokens that carry meaning. -/
  significant : Array Nat
  /-- The text of the token that stands for anything. -/
  placeholder : Option String
  /-- How many significant tokens have been taken. -/
  position : Nat
  events : Array Event
  /-- How many marks are out. -/
  openMarks : Nat
deriving DecidableEq, Repr

/-- A place to which the cursor can go back. -/
structure Mark where
  position : Nat
  /-- The index of the event that keeps its place in the record. -/
  event : Nat
deriving DecidableEq, Repr

/-- An attempt that was taken back. -/
structure Snapshot where
  start : Nat
  /-- The position the attempt had reached. -/
  stop : Nat
  event : Nat
  events : Array Event
deriving DecidableEq, Repr

namespace Cursor

/-- An operation on a cursor. -/
abbrev Step := EStateM Fault Cursor

/-- The input indices of the tokens that carry meaning. -/
def significantIndices (vocabulary : Vocabulary) (tokens : Array Token) :
    Except Fault (Array Nat) :=
  tokens.toList.zipIdx.foldlM (fun indices (token, index) => do
    let type ← vocabulary.get token.kind
    return if type.isTrivia then indices else indices.push index) #[]

/-- A cursor before the first token. -/
def ofTokens (vocabulary : Vocabulary) (tokens : Array Token) (placeholder : Option String) :
    Except Fault Cursor := do
  let significant ← significantIndices vocabulary tokens
  return { tokens, significant, placeholder, position := 0, events := #[], openMarks := 0 }

/-! ### Looking -/

/-- The number of significant tokens. -/
def size (c : Cursor) : Nat := c.significant.size

def atEnd (c : Cursor) : Bool := c.size ≤ c.position

/-- The number of significant tokens that have not been taken. -/
def remaining (c : Cursor) : Nat := c.size - c.position

/-- The `n`-th significant token from the current one on. -/
def peek? (c : Cursor) (n : Nat) : Option Token :=
  match c.significant[c.position + n]? with
  | some index => c.tokens[index]?
  | none => none

/-- The `n`-th significant token from the current one on, for a distance that need
not lie in the input: the position it leads to must still be countable. -/
def lookAhead (c : Cursor) (n : Nat) : Except Fault (Option Token) :=
  if c.position + n < countLimit then .ok (c.peek? n)
  else .error (.uncountable (c.position + n))

/-- The current token. -/
def current? (c : Cursor) : Option Token := c.peek? 0

/-- Whether the current token is the placeholder. -/
def atPlaceholder (c : Cursor) : Bool :=
  match c.placeholder, c.current? with
  | some placeholder, some token => placeholder == token.text
  | _, _ => false

/-- The offset at which the input ends. -/
def endOffset (c : Cursor) : Except Fault Nat :=
  match c.tokens.back? with
  | some token => return (← token.range).stop
  | none => return 0

/-- The range of the current token, or the empty range at the end of the input. -/
def currentRange (c : Cursor) : Except Fault TextRange :=
  match c.current? with
  | some token => token.range
  | none => return .emptyAt (← c.endOffset)

/-! ### Moving -/

/-- Takes the current token. -/
def advance : Step Unit := do
  let c ← get
  match c.significant[c.position]? with
  | none => throw .endOfInput
  | some index =>
      set { c with position := c.position + 1, events := c.events.push (.token index) }

/-- Keeps a place to go back to. -/
def mark : Step Mark :=
  modifyGet fun c =>
    (⟨c.position, c.events.size⟩,
      { c with events := c.events.push .tombstone, openMarks := c.openMarks + 1 })

/-- Counts one mark as handed back. -/
def handBack : Step Unit := do
  if (← get).openMarks = 0 then throw .surplusMark
  modify fun c => { c with openMarks := c.openMarks - 1 }

/-- Goes back to a mark and forgets everything recorded since. -/
def rollback (m : Mark) : Step Unit := do
  handBack
  modify fun c => { c with position := m.position, events := c.events.shrink m.event }

/-- Goes back to a mark and hands out what was recorded since. -/
def takeBack (m : Mark) : Step Snapshot := do
  let c ← get
  if c.events.size < m.event then throw (.staleMark m.event)
  handBack
  modifyGet fun c =>
    (⟨m.position, c.position, m.event, c.events.extract m.event c.events.size⟩,
      { c with position := m.position, events := c.events.shrink m.event })

/-- Replays an attempt at the place where it was taken back. -/
def restore (s : Snapshot) : Step Unit := do
  let c ← get
  if c.position ≠ s.start ∨ c.events.size ≠ s.event then throw .strayedSnapshot
  set { c with position := s.stop, events := c.events ++ s.events }

/-- Keeps what was done since a mark, without a node. -/
def release (_ : Mark) : Step Unit := handBack

/-- Keeps what was done since a mark as a node of the element. -/
def complete (m : Mark) (element : ElementId) : Step Unit := do
  let c ← get
  if c.events.size ≤ m.event then throw (.staleMark m.event)
  let first := c.significant[m.position]?.getD c.tokens.size
  handBack
  modify fun c =>
    { c with events := (c.events.setIfInBounds m.event (.start element first)).push .finish }

/-- Gives a mark up without handing it back. -/
def lose (m : Mark) : Step Unit := throw (.lostMark m.position)

/-- Records a diagnostic. -/
def report (diagnostic : Diagnostic) : Step Unit :=
  modify fun c => { c with events := c.events.push (.diagnostic diagnostic) }

/-- Adds a related place to the latest diagnostic. -/
def annotate (related : Related) : Step Unit :=
  modify fun c =>
    let change := fun diagnostic : Diagnostic =>
      { diagnostic with related := diagnostic.related ++ [related] }
    { c with events := Event.amendLatest change c.events }

/-- The record of a parse in which every mark has been handed back. -/
def finish (c : Cursor) : Except Fault (Array Event) :=
  if c.openMarks = 0 then .ok c.events else .error (.outstandingMarks c.openMarks)

end Cursor

end Dialect
