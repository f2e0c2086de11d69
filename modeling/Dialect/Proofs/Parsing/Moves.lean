import Dialect.Parsing.Cursor
import Dialect.Proofs.Results

/-!
# What the moves of a cursor do

Between two points of a parse the cursor only takes tokens and adds to the record
(`Cursor.extend`).  Under a mark it does so behind the place that the mark keeps
(`Cursor.marked`), and each of the four ways to hand the mark back leaves a cursor that
can be told from the one before the mark.
-/

set_option autoImplicit false

namespace Dialect

/-- What a cursor reads, which no move changes. -/
structure Input where
  tokens : Array Token
  /-- The indices of the tokens that carry meaning. -/
  significant : Array Nat
  placeholder : Option String
deriving DecidableEq, Repr

namespace Input

/-- A cursor at the given position with nothing recorded. -/
def cursorAt (input : Input) (position : Nat) : Cursor :=
  ⟨input.tokens, input.significant, input.placeholder, position, #[], 0⟩

/-- The significant token at the given position. -/
def token? (input : Input) (position : Nat) : Option Token := (input.cursorAt position).current?

/-- The number of significant tokens. -/
def size (input : Input) : Nat := input.significant.size

/-- The index of the token at the given position, or else the number of tokens. -/
def indexAt (input : Input) (position : Nat) : Nat :=
  input.significant[position]?.getD input.tokens.size

/-- The events of a leaf that takes the token at a position. -/
def leaf (input : Input) (id : ElementId) (position : Nat) : List Event :=
  [.start id (input.indexAt position), .token (input.indexAt position), .finish]

/-- The events of a node that is opened at a position. -/
def node (input : Input) (id : ElementId) (position : Nat) (events : List Event) : List Event :=
  .start id (input.indexAt position) :: events ++ [.finish]

end Input

namespace Cursor

variable {c : Cursor} {n k : Nat} {events more : List Event}

/-- What the cursor reads. -/
def input (c : Cursor) : Input := ⟨c.tokens, c.significant, c.placeholder⟩

/-- The cursor after it has taken tokens and added events. -/
def extend (c : Cursor) (n : Nat) (events : List Event) : Cursor :=
  { c with position := c.position + n, events := c.events ++ events.toArray }

/-- The cursor after a mark has been set. -/
def marked (c : Cursor) : Cursor :=
  { c with events := c.events.push .tombstone, openMarks := c.openMarks + 1 }

/-- The mark that is set at a cursor. -/
def place (c : Cursor) : Mark := ⟨c.position, c.events.size⟩

@[simp] theorem place_event : c.place.event = c.events.size := rfl

@[simp] theorem extend_input : (c.extend n events).input = c.input := rfl

@[simp] theorem extend_position : (c.extend n events).position = c.position + n := rfl

@[simp] theorem extend_size : (c.extend n events).size = c.size := rfl

@[simp] theorem extend_openMarks : (c.extend n events).openMarks = c.openMarks := rfl

@[simp] theorem marked_input : c.marked.input = c.input := rfl

@[simp] theorem marked_position : c.marked.position = c.position := rfl

@[simp] theorem marked_size : c.marked.size = c.size := rfl

@[simp] theorem extend_zero : c.extend 0 [] = c := by
  simp [extend]

@[simp] theorem extend_extend :
    (c.extend n events).extend k more = c.extend (n + k) (events ++ more) := by
  simp [extend, Nat.add_assoc]

/-- How the record has grown. -/
theorem extend_events : (c.extend n events).events.toList = c.events.toList ++ events := by
  simp [extend]

/-! ### Marks -/

theorem mark_eq : mark c = .ok c.place c.marked := rfl

theorem marked_extend_events :
    (c.marked.extend n events).events.toList = c.events.toList ++ .tombstone :: events := by
  simp [extend, marked]

theorem handBack_eq (out : c.openMarks ≠ 0) :
    handBack c = .ok () { c with openMarks := c.openMarks - 1 } := by
  simp [handBack, out]

theorem marked_extend_openMarks : (c.marked.extend n events).openMarks ≠ 0 :=
  Nat.succ_ne_zero _

theorem shrink_events : (c.marked.extend n events).events.shrink c.events.size = c.events := by
  apply Array.toList_inj.1
  rw [Array.toList_shrink, marked_extend_events]
  simp

/-- Rolling back undoes everything done under the mark. -/
theorem rollback_eq : rollback c.place (c.marked.extend n events) = .ok () c := by
  simp only [rollback, bind_apply, handBack_eq marked_extend_openMarks, modify_apply, place,
    shrink_events]
  rfl

/-- Releasing a mark leaves the place that it kept in the record. -/
theorem release_eq :
    release c.place (c.marked.extend n events) = .ok () (c.extend n (.tombstone :: events)) := by
  have recorded : (c.marked.extend n events).events =
      c.events ++ (Event.tombstone :: events).toArray := by
    apply Array.toList_inj.1
    rw [marked_extend_events]
    simp
  simp only [release, handBack_eq marked_extend_openMarks, recorded]
  rfl

/-- Taking an attempt back undoes it and hands out what was recorded. -/
theorem takeBack_eq :
    takeBack c.place (c.marked.extend n events) =
      .ok ⟨c.position, c.position + n, c.events.size, (Event.tombstone :: events).toArray⟩ c := by
  have inRecord : ¬ (c.marked.extend n events).events.size < c.place.event := by
    rw [place_event, ← Array.length_toList, marked_extend_events, List.length_append, Array.length_toList]
    omega
  have taken : (c.marked.extend n events).events.extract c.events.size
      (c.marked.extend n events).events.size = (Event.tombstone :: events).toArray := by
    apply Array.toList_inj.1
    have length : (c.marked.extend n events).events.toList.length =
        (c.marked.extend n events).events.size := Array.length_toList
    rw [Array.toList_extract, ← length, marked_extend_events]
    simp
  simp only [takeBack, bind_apply, get_apply]
  rw [if_neg inRecord]
  simp only [place, bind_apply, handBack_eq marked_extend_openMarks, modifyGet_apply, shrink_events]
  rw [taken]
  rfl

/-- An attempt that was taken back is replayed where it began. -/
theorem restore_eq :
    restore ⟨c.position, c.position + n, c.events.size, events.toArray⟩ c =
      .ok () (c.extend n events) := by
  simp [restore, extend]

/-- Completing a mark turns what was recorded since into a node. -/
theorem complete_eq (id : ElementId) :
    complete c.place id (c.marked.extend n events) =
      .ok () (c.extend n (c.input.node id c.position events)) := by
  have inRecord : ¬ (c.marked.extend n events).events.size ≤ c.place.event := by
    rw [place_event, ← Array.length_toList, marked_extend_events, List.length_append, Array.length_toList,
      List.length_cons]
    omega
  have recorded : ((c.marked.extend n events).events.setIfInBounds c.events.size
      (.start id (c.input.indexAt c.position))).push .finish =
        c.events ++
          (Event.start id (c.input.indexAt c.position) :: events ++ [Event.finish]).toArray := by
    apply Array.toList_inj.1
    rw [Array.toList_push, Array.toList_setIfInBounds, marked_extend_events]
    simp
  have first : (c.marked.extend n events).significant[c.position]?.getD
      (c.marked.extend n events).tokens.size = c.input.indexAt c.position := rfl
  simp only [complete, bind_apply, get_apply]
  rw [if_neg inRecord]
  simp only [place, bind_apply, handBack_eq marked_extend_openMarks, modify_apply, first, recorded]
  rfl

/-! ### Other moves -/

/-- Taking the token at the cursor. -/
theorem advance_eq (inside : c.position < c.size) :
    advance c = .ok () (c.extend 1 [.token (c.input.indexAt c.position)]) := by
  have found : c.significant[c.position]? = some c.significant[c.position] :=
    Array.getElem?_eq_getElem inside
  have index : c.input.indexAt c.position = c.significant[c.position] := by
    simp [Input.indexAt, input, found]
  simp [advance, found, index, extend]

theorem report_eq (diagnostic : Diagnostic) :
    report diagnostic c = .ok () (c.extend 0 [.diagnostic diagnostic]) := by
  simp [report, extend]

/-- The diagnostic that was just made gets the related place. -/
theorem annotate_eq (c : Cursor) (n : Nat) (events : List Event) (related : Related)
    (diagnostic : Diagnostic) :
    annotate related (c.extend n (events ++ [.diagnostic diagnostic])) =
      .ok () (c.extend n (events ++ [.diagnostic
        { diagnostic with related := diagnostic.related ++ [related] }])) := by
  simp [annotate, extend, Event.amendLatest, Event.amendFirst]

end Cursor

end Dialect
