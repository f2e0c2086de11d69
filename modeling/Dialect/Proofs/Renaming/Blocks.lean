import Dialect.Proofs.Grammar.Layout
import Dialect.Proofs.Renaming.Image

/-!
# Blocks that stand elsewhere

A definition that is laid out at two places gives two blocks of the same shape: each element of
the second is the one of the first with all ids moved along (`block_carried`).
-/

set_option autoImplicit false
set_option linter.unusedSectionVars false

namespace Dialect

/-- The element with all ids renamed by `σ`, and what a reference mentions replaced. -/
def Element.rename {ρ ρ' : Type} (σ : ElementId → ElementId) (mention : ρ → ρ')
    (element : Element ρ) : Element ρ' where
  id := σ element.id
  name := element.name
  rule := element.rule
  parent := element.parent.map σ
  kind := element.kind.rename σ mention

theorem Definition.preorder_pos (definition : Definition) : 0 < definition.preorder.length := by
  obtain ⟨below, split⟩ := Layout.Definition.exists_preorder definition
  rw [split, List.length_cons]
  exact Nat.succ_pos _

namespace Layout

/-- The ids from `low` to `high` are moved along to `low'` and behind, and elements that are made
there of the same are related. -/
structure Carries (scope scope' : Scope) (σ : ElementId → ElementId) (low low' high : Nat)
    (related : Element Mention → Element Mention → Prop) : Prop where
  vocabulary_eq : scope'.vocabulary = scope.vocabulary
  rule_eq : scope'.rule = scope.rule
  slides : ∀ id, low ≤ id → id < high → σ id = low' + (id - low)
  relates : ∀ parent id kind, low ≤ id → id < high →
    related (element scope parent id kind)
      (element scope' (parent.map σ) (σ id) (kind.rename σ fun mention => mention))

section Carried

variable {scope scope' : Scope} {σ : ElementId → ElementId} {low low' high : Nat}
  {related : Element Mention → Element Mention → Prop}
  (carries : Carries scope scope' σ low low' high related)

/-- A block has an element for each definition in what it is the block of. -/
theorem block_length [Alphabet] {parent : Option ElementId} {id : ElementId}
    {definition : Definition}
    {block : Block} (laid : Layout.block scope parent id definition = .ok block) :
    block.length = definition.preorder.length :=
  (block_lays laid).length_eq

/-- Definitions with as many elements have blocks of one length. -/
theorem block_length_eq [Alphabet] {parent parent' : Option ElementId} {id id' : ElementId}
    {definition definition' : Definition} {block block' : Block}
    (same : definition'.preorder.length = definition.preorder.length)
    (laid : Layout.block scope parent id definition = .ok block)
    (laid' : Layout.block scope' parent' id' definition' = .ok block') :
    block'.length = block.length :=
  (block_length laid').trans (same.trans (block_length laid).symm)

theorem block_pos [Alphabet] {parent : Option ElementId} {id : ElementId} {definition : Definition}
    {block : Block} (laid : Layout.block scope parent id definition = .ok block) :
    0 < block.length :=
  block_length laid ▸ definition.preorder_pos

include carries

/-- Where an id is moved to. -/
theorem Carries.at {id id' : Nat} (behind : low ≤ id) (inside : id < high)
    (there : id' = low' + (id - low)) : σ id = id' :=
  (carries.slides id behind inside).trans there.symm

/-- Two elements that are made of the same, one of them moved along. -/
theorem Carries.element {parent parent' : Option ElementId} {id id' : Nat} {kind kind' : Kind Mention}
    (parents : parent' = parent.map σ) (behind : low ≤ id) (inside : id < high)
    (there : id' = low' + (id - low)) (kinds : kind' = kind.rename σ fun mention => mention) :
    related (Layout.element scope parent id kind) (Layout.element scope' parent' id' kind') := by
  subst parents kinds
  rw [there, ← carries.slides id behind inside]
  exact carries.relates parent id kind behind inside

theorem token_carried {parent parent' : Option ElementId} {id id' : Nat} {type : String}
    {text : Option String} {flavor : Option Category} {block block' : Block}
    (laid : token scope parent id type text flavor = .ok block)
    (laid' : token scope' parent' id' type text flavor = .ok block')
    (parents : parent' = parent.map σ) (behind : low ≤ id) (there : id' = low' + (id - low))
    (inside : id + block.length ≤ high) : List.Forall₂ related block block' := by
  obtain ⟨-, known, resolved, rfl⟩ := token_eq_ok.1 laid
  obtain ⟨-, known', resolved', rfl⟩ := token_eq_ok.1 laid'
  rw [carries.vocabulary_eq, resolved] at resolved'
  obtain rfl := Except.ok.inj resolved'
  exact .cons (carries.element parents behind inside there rfl) .nil

theorem delimiter_carried {parent parent' id id' : Nat} {type : String} {block block' : Block}
    (laid : delimiter scope parent id type = .ok block)
    (laid' : delimiter scope' parent' id' type = .ok block')
    (parents : parent' = σ parent) (behind : low ≤ id) (there : id' = low' + (id - low))
    (inside : id + block.length ≤ high) : List.Forall₂ related block block' :=
  token_carried carries laid laid' (congrArg some parents) behind there inside

omit carries in
theorem delimiter_length {parent id : ElementId} {type : String} {block : Block}
    (laid : delimiter scope parent id type = .ok block) : block.length = 1 :=
  (delimiter_lays laid).length_eq

variable [Alphabet]

mutual

/-- **The same definition gives the same elements, moved along.** -/
theorem block_carried {parent parent' : Option ElementId} {id id' : Nat} :
    ∀ {definition : Definition} {block block' : Block},
      Layout.block scope parent id definition = .ok block →
        Layout.block scope' parent' id' definition = .ok block' →
          parent' = parent.map σ → low ≤ id → id' = low' + (id - low) →
            id + block.length ≤ high → List.Forall₂ related block block'
  | .token type text flavor, block, block', laid, laid', parents, behind, there, inside => by
      rw [Layout.block] at laid laid'
      exact token_carried carries laid laid' parents behind there inside
  | .identifier use isAlias object, block, block', laid, laid', parents, behind, there, inside => by
      obtain ⟨-, rfl⟩ := block_identifier_eq_ok.1 laid
      obtain ⟨-, rfl⟩ := block_identifier_eq_ok.1 laid'
      exact .cons (carries.element parents behind inside there rfl) .nil
  -- The element on top keeps its offset from the start, and so does all that is below it.
  | .sequence slots, block, block', laid, laid', parents, behind, there, inside => by
      obtain ⟨-, -, slots, below, laidBelow, rfl⟩ := block_sequence_eq_ok.1 laid
      obtain ⟨-, -, slots', below', laidBelow', rfl⟩ := block_sequence_eq_ok.1 laid'
      rw [List.length_cons] at inside
      have own : id' = σ id := (carries.at behind (by omega) there).symm
      obtain ⟨rfl, carried⟩ := slotBlocks_carried laidBelow laidBelow' own (by omega) (by omega)
        (by omega)
      exact .cons (carries.element parents behind (by omega) there rfl) carried
  | .wrapper opening ⟨content, optional, since⟩ closing repeated, block, block', laid, laid',
      parents, behind, there, inside => by
      obtain ⟨-, first, laidFirst, middle, laidMiddle, last, laidLast, rfl⟩ :=
        block_wrapper_eq_ok.1 laid
      obtain ⟨-, first', laidFirst', middle', laidMiddle', last', laidLast', rfl⟩ :=
        block_wrapper_eq_ok.1 laid'
      have one := delimiter_length laidFirst
      have one' := delimiter_length laidFirst'
      have only := delimiter_length laidLast
      have wide := block_pos laidMiddle
      have same : middle'.length = middle.length := block_length_eq rfl laidMiddle laidMiddle'
      simp only [List.length_cons, List.length_append] at inside
      have own : id' = σ id := (carries.at behind (by omega) there).symm
      have opens := delimiter_carried carries laidFirst laidFirst' own (by omega) (by omega) (by omega)
      have holds := block_carried laidMiddle laidMiddle' (congrArg some own) (by omega) (by omega)
        (by omega)
      have closes := delimiter_carried carries laidLast laidLast' own (by omega) (by omega) (by omega)
      refine .cons (carries.element parents behind (by omega) there ?_)
        (List.rel_append (List.rel_append opens holds) closes)
      simp only [Kind.rename, Slot.rename, Slot.replace]
      have opening_eq : σ (id + 1) = id' + 1 := carries.at (by omega) (by omega) (by omega)
      have content_eq : σ (id + 1 + first.length) = id' + 1 + first'.length :=
        carries.at (by omega) (by omega) (by omega)
      have closing_eq : σ (id + 1 + first.length + middle.length) =
          id' + 1 + first'.length + middle'.length :=
        carries.at (by omega) (by omega) (by omega)
      rw [opening_eq, content_eq, closing_eq]
  | .oneOf alternatives sortable, block, block', laid, laid', parents, behind, there, inside => by
      obtain ⟨-, -, slots, below, laidBelow, rfl⟩ := block_oneOf_eq_ok.1 laid
      obtain ⟨-, -, slots', below', laidBelow', rfl⟩ := block_oneOf_eq_ok.1 laid'
      rw [List.length_cons] at inside
      have own : id' = σ id := (carries.at behind (by omega) there).symm
      obtain ⟨rfl, carried⟩ := slotBlocks_carried laidBelow laidBelow' own (by omega) (by omega)
        (by omega)
      exact .cons (carries.element parents behind (by omega) there rfl) carried
  | .iteration item none, block, block', laid, laid', parents, behind, there, inside => by
      obtain ⟨-, below, laidBelow, rfl⟩ := block_iteration_eq_ok.1 laid
      obtain ⟨-, below', laidBelow', rfl⟩ := block_iteration_eq_ok.1 laid'
      have wide := block_pos laidBelow
      rw [List.length_cons] at inside
      have own : id' = σ id := (carries.at behind (by omega) there).symm
      have carried := block_carried laidBelow laidBelow' (congrArg some own) (by omega) (by omega)
        (by omega)
      refine .cons (carries.element parents behind (by omega) there ?_) carried
      simp only [Kind.rename, Option.map_none]
      have item_eq : σ (id + 1) = id' + 1 := carries.at (by omega) (by omega) (by omega)
      rw [item_eq]
  | .iteration item (some separator), block, block', laid, laid', parents, behind, there, inside => by
      obtain ⟨-, below, laidBelow, last, laidLast, rfl⟩ := block_separated_eq_ok.1 laid
      obtain ⟨-, below', laidBelow', last', laidLast', rfl⟩ := block_separated_eq_ok.1 laid'
      have wide := block_pos laidBelow
      have same : below'.length = below.length := block_length_eq rfl laidBelow laidBelow'
      have only := delimiter_length laidLast
      simp only [List.length_cons, List.length_append] at inside
      have own : id' = σ id := (carries.at behind (by omega) there).symm
      have repeats := block_carried laidBelow laidBelow' (congrArg some own) (by omega) (by omega)
        (by omega)
      have separates := delimiter_carried carries laidLast laidLast' own (by omega) (by omega)
        (by omega)
      refine .cons (carries.element parents behind (by omega) there ?_)
        (List.rel_append repeats separates)
      simp only [Kind.rename, Option.map_some]
      have item_eq : σ (id + 1) = id' + 1 := carries.at (by omega) (by omega) (by omega)
      have separator_eq : σ (id + 1 + below.length) = id' + 1 + below'.length :=
        carries.at (by omega) (by omega) (by omega)
      rw [item_eq, separator_eq]
  | .qualified variants separator, block, block', laid, laid', parents, behind, there, inside => by
      obtain ⟨-, -, laidVariants, below, laidBelow, last, laidLast, rfl⟩ :=
        block_qualified_eq_ok.1 laid
      obtain ⟨-, -, laidVariants', below', laidBelow', last', laidLast', rfl⟩ :=
        block_qualified_eq_ok.1 laid'
      have same : below'.length = below.length := by
        rw [(variantBlocks_lays laidBelow).1.length_eq, (variantBlocks_lays laidBelow').1.length_eq]
      have only := delimiter_length laidLast
      simp only [List.length_cons, List.length_append] at inside
      have own : id' = σ id := (carries.at behind (by omega) there).symm
      obtain ⟨rfl, named⟩ := variantBlocks_carried laidBelow laidBelow' own (by omega) (by omega)
        (by omega)
      have joins := delimiter_carried carries laidLast laidLast' own (by omega) (by omega)
        (by omega)
      refine .cons (carries.element parents behind (by omega) there ?_) (List.rel_append named joins)
      simp only [Kind.rename]
      have separator_eq : σ (id + 1 + below.length) = id' + 1 + below'.length :=
        carries.at (by omega) (by omega) (by omega)
      rw [separator_eq]
  | .reference rule, block, block', laid, laid', parents, behind, there, inside => by
      obtain ⟨-, -, rfl⟩ := block_reference_eq_ok.1 laid
      obtain ⟨-, -, rfl⟩ := block_reference_eq_ok.1 laid'
      refine .cons (carries.element parents behind inside there ?_) .nil
      rw [Kind.rename, carries.rule_eq]

theorem slotBlocks_carried {parent parent' next next' : Nat} :
    ∀ {slots : List (Slot Definition)} {laidSlots laidSlots' : List (Slot ElementId)}
      {block block' : Block}, slotBlocks scope parent next slots = .ok (laidSlots, block) →
        slotBlocks scope' parent' next' slots = .ok (laidSlots', block') →
          parent' = σ parent → low ≤ next → next' = low' + (next - low) →
            next + block.length ≤ high →
              laidSlots' = laidSlots.map (Slot.rename σ) ∧ List.Forall₂ related block block'
  | [], _, _, _, _, laid, laid', _, _, _, _ => by
      obtain ⟨rfl, rfl⟩ := slotBlocks_nil_eq_ok.1 laid
      obtain ⟨rfl, rfl⟩ := slotBlocks_nil_eq_ok.1 laid'
      exact ⟨rfl, .nil⟩
  | ⟨item, optional, since⟩ :: rest, _, _, _, _, laid, laid', parents, behind, there, inside => by
      obtain ⟨first, laidFirst, others, below, laidBelow, rfl, rfl⟩ := slotBlocks_cons_eq_ok.1 laid
      obtain ⟨first', laidFirst', others', below', laidBelow', rfl, rfl⟩ :=
        slotBlocks_cons_eq_ok.1 laid'
      have wide := block_pos laidFirst
      have same : first'.length = first.length := block_length_eq rfl laidFirst laidFirst'
      rw [List.length_append] at inside
      have fills := block_carried laidFirst laidFirst' (congrArg some parents) behind there (by omega)
      obtain ⟨rfl, carried⟩ := slotBlocks_carried laidBelow laidBelow' parents (by omega) (by omega)
        (by omega)
      refine ⟨?_, List.rel_append fills carried⟩
      simp only [List.map_cons, Slot.rename, Slot.replace]
      rw [carries.at behind (by omega) there]

theorem partBlocks_carried {parent parent' next next' : Nat} :
    ∀ {variant : List Definition} {parts parts' : List ElementId} {block block' : Block},
      partBlocks scope parent next variant = .ok (parts, block) →
        partBlocks scope' parent' next' variant = .ok (parts', block') →
          parent' = σ parent → low ≤ next → next' = low' + (next - low) →
            next + block.length ≤ high →
              parts' = parts.map σ ∧ List.Forall₂ related block block'
  | [], _, _, _, _, laid, laid', _, _, _, _ => by
      obtain ⟨rfl, rfl⟩ := partBlocks_nil_eq_ok.1 laid
      obtain ⟨rfl, rfl⟩ := partBlocks_nil_eq_ok.1 laid'
      exact ⟨rfl, .nil⟩
  | part :: rest, _, _, _, _, laid, laid', parents, behind, there, inside => by
      obtain ⟨-, first, laidFirst, others, below, laidBelow, rfl, rfl⟩ :=
        partBlocks_cons_eq_ok.1 laid
      obtain ⟨-, first', laidFirst', others', below', laidBelow', rfl, rfl⟩ :=
        partBlocks_cons_eq_ok.1 laid'
      have wide := block_pos laidFirst
      have same : first'.length = first.length := block_length_eq rfl laidFirst laidFirst'
      rw [List.length_append] at inside
      have fills := block_carried laidFirst laidFirst' (congrArg some parents) behind there (by omega)
      obtain ⟨rfl, carried⟩ := partBlocks_carried laidBelow laidBelow' parents (by omega) (by omega)
        (by omega)
      refine ⟨?_, List.rel_append fills carried⟩
      rw [List.map_cons, carries.at behind (by omega) there]

theorem variantBlocks_carried {parent parent' next next' : Nat} :
    ∀ {variants : List (List Definition)} {laidVariants laidVariants' : List (List ElementId)}
      {block block' : Block},
      variantBlocks scope parent next variants = .ok (laidVariants, block) →
        variantBlocks scope' parent' next' variants = .ok (laidVariants', block') →
          parent' = σ parent → low ≤ next → next' = low' + (next - low) →
            next + block.length ≤ high →
              laidVariants' = laidVariants.map (List.map σ) ∧ List.Forall₂ related block block'
  | [], _, _, _, _, laid, laid', _, _, _, _ => by
      obtain ⟨rfl, rfl⟩ := variantBlocks_nil_eq_ok.1 laid
      obtain ⟨rfl, rfl⟩ := variantBlocks_nil_eq_ok.1 laid'
      exact ⟨rfl, .nil⟩
  | variant :: rest, _, _, _, _, laid, laid', parents, behind, there, inside => by
      obtain ⟨parts, first, laidFirst, others, below, laidBelow, rfl, rfl⟩ :=
        variantBlocks_cons_eq_ok.1 laid
      obtain ⟨parts', first', laidFirst', others', below', laidBelow', rfl, rfl⟩ :=
        variantBlocks_cons_eq_ok.1 laid'
      have same : first'.length = first.length := by
        rw [(partBlocks_lays laidFirst).1.length_eq, (partBlocks_lays laidFirst').1.length_eq]
      rw [List.length_append] at inside
      obtain ⟨rfl, named⟩ := partBlocks_carried laidFirst laidFirst' parents behind there (by omega)
      obtain ⟨rfl, carried⟩ := variantBlocks_carried laidBelow laidBelow' parents (by omega)
        (by omega) (by omega)
      exact ⟨rfl, List.rel_append named carried⟩

end

end Carried

end Layout

end Dialect
