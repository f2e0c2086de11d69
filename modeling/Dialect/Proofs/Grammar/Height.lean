import Dialect.Proofs.Grammar.Entry
import Mathlib.Data.Finset.Card
import Mathlib.Data.Finset.Filter
import Mathlib.Data.Finset.Range

/-!
# Heights

The height of a node is the number of nodes that can be reached from it.  In a graph
without cycles every edge leads to a lower node, so the height bounds how long a way
can be.
-/

set_option autoImplicit false

namespace Dialect

open Relation

section Graph

variable {edge : Nat → Nat → Prop} {size : Nat}

open Classical in
/-- How many nodes below `size` can be reached from `x` by at least one edge. -/
noncomputable def height (edge : Nat → Nat → Prop) (size x : Nat) : Nat :=
  ((Finset.range size).filter (TransGen edge x)).card

/-- Edges lead downwards where nothing leads back to itself. -/
theorem height_lt_of_edge (acyclic : ∀ x, ¬ TransGen edge x x) {x y : Nat} (follows : edge x y)
    (inside : y < size) : height edge size y < height edge size x := by
  classical
  unfold height
  apply Finset.card_lt_card
  rw [Finset.ssubset_iff_of_subset]
  · have reached : y ∈ (Finset.range size).filter (TransGen edge x) := by
      simp [inside, TransGen.single follows]
    have missed : y ∉ (Finset.range size).filter (TransGen edge y) := by
      simp [acyclic y]
    exact ⟨y, reached, missed⟩
  · intro z member
    rw [Finset.mem_filter] at member ⊢
    exact ⟨member.1, .head follows member.2⟩

/-- No way through the graph is as long as the graph is large. -/
theorem height_lt_size (acyclic : ∀ x, ¬ TransGen edge x x) {x : Nat} (inside : x < size) :
    height edge size x < size := by
  classical
  have fewer : (Finset.range size).filter (TransGen edge x) ⊂ Finset.range size := by
    rw [Finset.filter_ssubset]
    exact ⟨x, Finset.mem_range.2 inside, acyclic x⟩
  have counted := Finset.card_lt_card fewer
  rwa [Finset.card_range] at counted

end Graph

namespace Grammar

variable {g : Grammar}

theorem WellFormed.enters_lt_size (wellFormed : g.WellFormed) {x y : ElementId}
    (enters : g.Enters x y) : y < g.elements.size := by
  obtain ⟨kind, found, entry⟩ := enters_iff.1 enters
  exact wellFormed.part_lt_size found (Kind.mem_parts_of_entries entry)

/-- How many elements may be entered, one from the other, at the token at which the
given one is entered. -/
noncomputable def height (g : Grammar) (id : ElementId) : Nat :=
  Dialect.height g.Enters g.elements.size id

theorem WellFormed.height_lt_of_enters (wellFormed : g.WellFormed) {x y : ElementId}
    (enters : g.Enters x y) : g.height y < g.height x :=
  height_lt_of_edge wellFormed.not_reenters enters (wellFormed.enters_lt_size enters)

theorem WellFormed.height_lt_size (wellFormed : g.WellFormed) {id : ElementId}
    (inside : id < g.elements.size) : g.height id < g.elements.size :=
  Dialect.height_lt_size wellFormed.not_reenters inside

end Grammar

end Dialect
