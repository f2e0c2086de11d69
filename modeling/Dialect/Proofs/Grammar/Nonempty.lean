import Dialect.Proofs.Grammar.Validity

/-!
# Composites are not empty

A sequence without slots and a choice without alternatives are not sound, and what is laid out
has as many slots as were written.  So no accepted grammar has an empty composite
(`Grammar.ofRules_compact`).
-/

set_option autoImplicit false

namespace Dialect

/-- A sequence has a slot, and a choice has an alternative. -/
def Kind.Nonempty {ρ : Type} : Kind ρ → Prop
  | .sequence slots | .oneOf slots _ => slots ≠ []
  | _ => True

/-- What was laid out of a sound definition is not empty. -/
theorem Layout.LaidOut.nonempty [Alphabet] {vocabulary : Vocabulary}
    {written : ElementId → Option Definition}
    {definition : Definition} {kind : Kind Mention}
    (laidOut : LaidOut vocabulary written definition kind)
    (sound : Layable vocabulary definition) : kind.Nonempty := by
  cases laidOut with
  | sequence filled =>
      rintro rfl
      exact sound (List.forall₂_nil_right_iff.1 filled)
  | oneOf filled =>
      rintro rfl
      exact sound (List.forall₂_nil_right_iff.1 filled)
  | _ => trivial

theorem Kind.nonempty_of_link {ρ σ ε : Type} {resolve : ρ → Except ε σ} {kind : Kind ρ}
    {linked : Kind σ} (done : kind.link resolve = .ok linked) (nonempty : kind.Nonempty) :
    linked.Nonempty := by
  cases kind with
  | reference target =>
      obtain ⟨id, -, rfl⟩ := map_eq_ok.1 done
      trivial
  | _ =>
      obtain rfl := Except.ok.inj done
      exact nonempty

namespace Grammar

/-- No composite of the grammar is empty. -/
def Compact (g : Grammar) : Prop := ∀ id kind, g.kind? id = some kind → kind.Nonempty

/-- **No accepted grammar has an empty composite.** -/
theorem ofRules_compact [Alphabet] {vocabulary : Vocabulary} {rules : List Rule}
    {root : Option String}
    {g : Grammar} (built : ofRules vocabulary rules root = .ok g) : g.Compact := by
  intro id kind stands
  obtain ⟨draft, elements, start, -, laid, linked, -, rfl, -⟩ := ofRules_eq_ok built
  have renders := (layOut_laysOut laid).renders linked start
  have bound : id < (Rule.preorder rules).length := renders.size_eq ▸ lt_of_kind?_eq_some stands
  obtain ⟨before, after, laidOut, found, done⟩ :=
    renders.stands id _ (List.getElem?_eq_getElem bound)
  obtain rfl := Option.some.inj (stands.symm.trans found)
  exact Kind.nonempty_of_link done (laidOut.nonempty (renders.sound _ (List.getElem_mem bound)))

end Grammar

end Dialect
