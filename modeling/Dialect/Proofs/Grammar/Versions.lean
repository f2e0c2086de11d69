import Dialect.Proofs.Grammar.Entry

/-!
# Versions that have every slot

In such a version elements are entered as if all slots were counted (`HasAll.enters`), so none
of an accepted grammar leads back to itself.
-/

set_option autoImplicit false

namespace Dialect

open Relation

/-- The slots of an element. -/
def Kind.slots {ρ : Type} : Kind ρ → List (Slot ElementId)
  | .sequence slots => slots
  | .wrapper _ content _ _ => [content]
  | .oneOf alternatives _ => alternatives
  | _ => []

namespace Grammar

variable {g : Grammar} {version : Nat}

/-- Every slot of the grammar is there in the version. -/
def HasAll (g : Grammar) (version : Nat) : Prop :=
  ∀ id kind, g.kind? id = some kind → ∀ slot ∈ kind.slots, slot.isActive version = true

theorem hasAll_of_elements (each : ∀ element ∈ g.elements, ∀ slot ∈ element.kind.slots,
    slot.isActive version = true) : g.HasAll version := by
  intro id kind stands
  obtain ⟨element, found, rfl⟩ := kind?_eq_some.1 stands
  exact each element (Array.mem_of_getElem? found)

theorem leadingBeyond_eq_nil {slots : List (Slot ElementId)}
    (active : ∀ slot ∈ slots, slot.isActive version = true) :
    Kind.leadingBeyond version slots = [] := by
  induction slots with
  | nil => rfl
  | cons slot rest ih =>
      obtain ⟨first, others⟩ := List.forall_mem_cons.1 active
      simp [Kind.leadingBeyond, first, ih others]

theorem HasAll.not_passesOver (all : g.HasAll version) (x y : ElementId) :
    ¬ g.PassesOver version x y := by
  rintro ⟨slots, stands, beyond⟩
  have none : Kind.leadingBeyond version slots = [] := leadingBeyond_eq_nil (all x _ stands)
  rw [none] at beyond
  cases beyond

/-- What may be entered in such a version may be entered if all slots are counted. -/
theorem HasAll.enters (all : g.HasAll version) {x y : ElementId}
    (enters : g.EntersAt version x y) : g.Enters x y :=
  enters.enters_or_passesOver.resolve_right (all.not_passesOver x y)

/-- In such a version no element of an accepted grammar can be entered again at its token. -/
theorem WellFormed.not_reentersAt (wellFormed : g.WellFormed) (all : g.HasAll version)
    (id : ElementId) : ¬ TransGen (g.EntersAt version) id id := fun cycle =>
  wellFormed.not_reenters id (TransGen.mono (fun _ _ => all.enters) _ _ cycle)

end Grammar

end Dialect
