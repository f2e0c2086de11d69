import Dialect.Prediction.FirstSets

/-!
# Remembered predictions

First sets and the order of alternatives are computed when they are first asked
for and remembered with the grammar's memo.  A computation reads what is already
remembered and stores nothing but its own result.
-/

set_option autoImplicit false

namespace Dialect

/-- What has been computed so far, by element. -/
structure Memo where
  firsts : Array (Option FirstSets)
  orders : Array (Option (List (Slot ElementId)))
  /-- How many questions were answered from elsewhere than from what is stored here. -/
  told : Nat := 0
deriving Repr

/-- A question about a grammar, answered with the help of a memo. -/
abbrev Query := EStateM Fault Memo

namespace Memo

/-- The first sets of an element, if they are remembered. -/
def firsts? (memo : Memo) (id : ElementId) : Option FirstSets := memo.firsts[id]?.join

/-- The order of the alternatives of an element, if it is remembered. -/
def order? (memo : Memo) (id : ElementId) : Option (List (Slot ElementId)) :=
  memo.orders[id]?.join

/-- Remembers the first sets of an element. -/
def rememberFirsts (memo : Memo) (id : ElementId) (sets : FirstSets) : Memo :=
  { memo with firsts := memo.firsts.setIfInBounds id (some sets) }

/-- Remembers the order of the alternatives of an element. -/
def rememberOrder (memo : Memo) (id : ElementId) (order : List (Slot ElementId)) : Memo :=
  { memo with orders := memo.orders.setIfInBounds id (some order) }

end Memo

/-- Alternatives that may begin with an identifier after those that may not,
otherwise in the given order. -/
def identifiersLast (shaped : List (Slot ElementId × Bool)) : List (Slot ElementId) :=
  ((shaped.filter fun entry => !entry.2) ++ shaped.filter fun entry => entry.2).map Prod.fst

namespace Grammar

/-- A memo in which nothing is remembered. -/
def blankMemo (g : Grammar) : Memo where
  firsts := Array.replicate g.elements.size none
  orders := Array.replicate g.elements.size none

/-- The first sets of an element. -/
def firsts (g : Grammar) (id : ElementId) : Query FirstSets := do
  let _ ← g.element id
  let memo ← get
  match memo.firsts? id with
  | some sets => return sets
  | none =>
      let sets := FirstSets.compute g memo.firsts? id
      set (memo.rememberFirsts id sets)
      return sets

/-- The slots of a sequence or of a choice in the order in which they are tried.
In a sortable choice alternatives that may begin with an identifier come last. -/
def children (g : Grammar) (id : ElementId) : Query (List (Slot ElementId)) := do
  match (← g.element id).kind with
  | .sequence slots => return slots
  | .oneOf alternatives false => return alternatives
  | .oneOf alternatives true =>
      match (← get).order? id with
      | some order => return order
      | none =>
          let shaped ← alternatives.mapM fun slot => do
            return (slot, (← g.firsts slot.item).identifierShaped)
          let order := identifiersLast shaped
          modify fun memo => memo.rememberOrder id order
          return order
  | _ => return []

end Grammar

end Dialect
