import Dialect.Prediction.Memo

/-!
# Paths and what may follow

While an element is being matched, the elements around it form a path: each frame
is an element and the slot of it that is being filled.  What may or must come
after the innermost element follows from the path alone, together with the first
sets of the elements that could come next.

The rules are stated over any monad in which first sets can be asked for and
faults can be raised, so they hold alike for remembered and for computed sets.
-/

set_option autoImplicit false

namespace Dialect

/-- An element being matched, and where in it.

The slot is an index for a sequence, a choice and a qualified identifier; for a
wrapper it is 0 at the opening, 1 at the content and 2 at the closing delimiter;
for an iteration 0 at an item and 1 at a separator. -/
structure Frame where
  element : ElementId
  slot : Nat
deriving DecidableEq, Repr

/-- The frames around a place in the grammar, innermost first. -/
abbrev Path := List Frame

namespace Path

/-- The path on entering an element. -/
def enter (outer : Path) (element : ElementId) : Path := ⟨element, 0⟩ :: outer

/-- The same path with the innermost frame moved to another slot. -/
def moveTo (slot : Nat) : Path → Path
  | [] => []
  | frame :: outer => { frame with slot } :: outer

/-- The frames around the innermost one. -/
def ancestors (path : Path) : Path := path.tail

/-- The innermost of the given frames whose element leaves nodes of this kind. -/
def nearest (g : Grammar) (kind : NodeKind) : Path → Except Fault (Option Frame)
  | [] => return none
  | frame :: outer => do
      if (← g.element frame.element).kind.nodeKind? = some kind then return some frame
      nearest g kind outer

/-- The frame around the innermost one whose element leaves nodes of this kind. -/
def enclosing (g : Grammar) (kind : NodeKind) (path : Path) : Except Fault (Option Frame) :=
  nearest g kind path.ancestors

section Following

/-- The slots of a sequence after the given one.  A number that is none of the
sequence's slots has nothing after it, but the number after it must be countable. -/
def slotsAfter (slots : List (Slot ElementId)) (slot : Nat) :
    Except Fault (List (Slot ElementId)) :=
  if slot < slots.length ∨ slot + 1 < countLimit then .ok (slots.drop (slot + 1))
  else .error (.uncountable (slot + 1))

variable {m : Type → Type} [Monad m]
variable (version : Nat) (kindOf : ElementId → m (Kind ElementId)) (starts : ElementId → m Bool)

/-- Whether one of the slots that come next may begin with the token: `some`
answer at the first slot that settles it, `none` when all of them may be left
empty. -/
def amongSlots : List (Slot ElementId) → m (Option Bool)
  | [] => return none
  | slot :: rest => do
      if !slot.isActive version then amongSlots rest
      else if ← starts slot.item then return some true
      else if slot.optional then amongSlots rest
      else return some false

/-- Asks the frames from the inside out until one of them answers. -/
def outward (ask : Nat → Kind ElementId → m (Option Bool)) : Path → m Bool
  | [] => return false
  | frame :: outer => do
      match ← ask frame.slot (← kindOf frame.element) with
      | some answer => return answer
      | none => outward ask outer

variable [MonadLiftT (Except Fault) m]

/-- What one frame says about whether the token may come next; `none` when that
depends on the frames around it. -/
def possibleIn (slot : Nat) : Kind ElementId → m (Option Bool)
  | .sequence slots => do amongSlots version starts (← slotsAfter slots slot)
  | .wrapper opening content closing repeated => do
      match slot with
      | 0 =>
          let active := content.isActive version
          if repeated then
            if ← starts opening then return some true
          if active then
            if ← starts content.item then return some true
          if !active || content.optional then return some (← starts closing)
          return some false
      | 1 =>
          if !repeated then return some (← starts closing)
          if ← starts closing then return some true
          return none
      | _ =>
          if repeated then
            if ← starts closing then return some true
          return none
  | .iteration item separator => do
      let again := if slot = 0 then separator.getD item else item
      if ← starts again then return some true
      if slot = 1 then return some false
      return none
  | .qualified _ separator => do
      if ← starts separator then return some true
      return none
  | _ => return none

/-- What one frame says about whether the token must come next; `none` when that
depends on the frames around it. -/
def requiredIn (slot : Nat) : Kind ElementId → m (Option Bool)
  | .sequence slots => do
      match (← slotsAfter slots slot).find? (Slot.isActive version) with
      | none => return none
      | some next =>
          if next.optional then return some false
          return some (← starts next.item)
  | .wrapper _ content closing repeated => do
      if repeated then return some false
      match slot with
      | 0 =>
          if content.isActive version then
            if content.optional then return some false
            return some (← starts content.item)
          return some (← starts closing)
      | 1 => return some (← starts closing)
      | _ => return none
  | .iteration item _ => do
      if slot = 1 then return some (← starts item)
      return some false
  | .qualified .. => return some false
  | _ => return none

/-- Whether a token that begins the elements in `starts` may come right after the
innermost element. -/
def mayPrecede (path : Path) : m Bool :=
  outward kindOf (possibleIn version starts) path.ancestors

/-- Whether every continuation after the innermost element begins with a token
that must begin the elements in `starts`. -/
def mustPrecede (path : Path) : m Bool :=
  outward kindOf (requiredIn version starts) path.ancestors

end Following

end Path

namespace Grammar

/-- The kind of an element that is on a path. -/
def kindOf (g : Grammar) (id : ElementId) : Query (Kind ElementId) :=
  return (← g.element id).kind

end Grammar

end Dialect
