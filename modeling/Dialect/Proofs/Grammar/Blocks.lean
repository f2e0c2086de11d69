import Dialect.Grammar.Basic
import Dialect.Proofs.Results

/-!
# What blocks are made of

For each kind of definition, when it can be laid out and what its block is made of then
(`Layout.block_sequence_eq_ok` and so on).
-/

set_option autoImplicit false

namespace Dialect.Layout

variable {scope : Scope} {parent : Option ElementId} {above id next : Nat} {block : Block}

/-- What needs an id succeeds if there is one. -/
theorem reserve_bind_eq_ok {α : Type} {f : Unit → Except DefinitionError α} {result : α} :
    (reserve id >>= f) = .ok result ↔ id < Supply.elements.capacity ∧ f () = .ok result := by
  unfold reserve
  by_cases room : id < Supply.elements.capacity
  · simp only [room, if_true, true_and]
    rfl
  · simp only [room, if_false, false_and, iff_false]
    exact nofun

theorem token_eq_ok {type : String} {text : Option String} {flavor : Option Category} :
    token scope parent id type text flavor = .ok block ↔ id < Supply.elements.capacity ∧
      ∃ known, scope.vocabulary.resolve type = .ok known ∧
        [element scope parent id (.token known text flavor)] = block := by
  rw [token, reserve_bind_eq_ok]
  simp only [bind_eq_ok, pure_eq_ok]

variable [Alphabet]

theorem block_identifier_eq_ok {use : NameUse} {isAlias : Bool} {object : Option String} :
    Layout.block scope parent id (.identifier use isAlias object) = .ok block ↔
      id < Supply.elements.capacity ∧
        [element scope parent id (.identifier use isAlias object)] = block := by
  rw [Layout.block, reserve_bind_eq_ok, pure_eq_ok]

theorem block_sequence_eq_ok {slots : List (Slot Definition)} :
    Layout.block scope parent id (.sequence slots) = .ok block ↔
      id < Supply.elements.capacity ∧ ¬ slots.isEmpty = true ∧
        ∃ laid below, slotBlocks scope id (id + 1) slots = .ok (laid, below) ∧
          element scope parent id (.sequence laid) :: below = block := by
  rw [Layout.block, reserve_bind_eq_ok, guard_eq_ok]
  simp only [bind_eq_ok, Prod.exists, pure_eq_ok]

theorem block_wrapper_eq_ok {opening closing : String} {content : Definition} {optional repeated : Bool}
    {since : Nat} :
    Layout.block scope parent id (.wrapper opening ⟨content, optional, since⟩ closing repeated) =
        .ok block ↔
      id < Supply.elements.capacity ∧ ∃ first, delimiter scope id (id + 1) opening = .ok first ∧
        ∃ middle, Layout.block scope (some id) (id + 1 + first.length) content = .ok middle ∧
          ∃ last, delimiter scope id (id + 1 + first.length + middle.length) closing = .ok last ∧
            element scope parent id (.wrapper (id + 1) ⟨id + 1 + first.length, optional, since⟩
              (id + 1 + first.length + middle.length) repeated) :: (first ++ middle ++ last) =
                block := by
  rw [Layout.block, reserve_bind_eq_ok]
  simp only [bind_eq_ok, pure_eq_ok]

theorem block_oneOf_eq_ok {alternatives : List (Slot Definition)} {sortable : Bool} :
    Layout.block scope parent id (.oneOf alternatives sortable) = .ok block ↔
      id < Supply.elements.capacity ∧ ¬ alternatives.isEmpty = true ∧
        ∃ laid below, slotBlocks scope id (id + 1) alternatives = .ok (laid, below) ∧
          element scope parent id (.oneOf laid sortable) :: below = block := by
  rw [Layout.block, reserve_bind_eq_ok, guard_eq_ok]
  simp only [bind_eq_ok, Prod.exists, pure_eq_ok]

theorem block_iteration_eq_ok {item : Definition} :
    Layout.block scope parent id (.iteration item none) = .ok block ↔
      id < Supply.elements.capacity ∧ ∃ below, Layout.block scope (some id) (id + 1) item = .ok below ∧
        element scope parent id (.iteration (id + 1) none) :: below = block := by
  rw [Layout.block, reserve_bind_eq_ok]
  simp only [bind_eq_ok, pure_eq_ok]

/-- With a separator between the items. -/
theorem block_separated_eq_ok {item : Definition} {separator : String} :
    Layout.block scope parent id (.iteration item (some separator)) = .ok block ↔
      id < Supply.elements.capacity ∧ ∃ below, Layout.block scope (some id) (id + 1) item = .ok below ∧
        ∃ last, delimiter scope id (id + 1 + below.length) separator = .ok last ∧
          element scope parent id (.iteration (id + 1) (some (id + 1 + below.length))) ::
            (below ++ last) = block := by
  rw [Layout.block, reserve_bind_eq_ok]
  simp only [bind_eq_ok, pure_eq_ok]

theorem block_qualified_eq_ok {variants : List (List Definition)} {separator : String} :
    Layout.block scope parent id (.qualified variants separator) = .ok block ↔
      id < Supply.elements.capacity ∧ ¬ (variants.isEmpty || variants.any List.isEmpty) = true ∧
        ∃ laid below, variantBlocks scope id (id + 1) variants = .ok (laid, below) ∧
          ∃ last, delimiter scope id (id + 1 + below.length) separator = .ok last ∧
            element scope parent id (.qualified laid (id + 1 + below.length)) ::
              (below ++ last) = block := by
  rw [Layout.block, reserve_bind_eq_ok, guard_eq_ok]
  simp only [bind_eq_ok, Prod.exists, pure_eq_ok]

theorem block_reference_eq_ok {rule : String} :
    Layout.block scope parent id (.reference rule) = .ok block ↔
      id < Supply.elements.capacity ∧ ¬ (!Name.isValid rule) = true ∧
        [element scope parent id (.reference ⟨scope.rule, rule⟩)] = block := by
  rw [Layout.block, reserve_bind_eq_ok, guard_eq_ok, pure_eq_ok]

/-! ### Rows of blocks -/

theorem slotBlocks_nil_eq_ok {laid : List (Slot ElementId)} :
    slotBlocks scope above next [] = .ok (laid, block) ↔ [] = laid ∧ [] = block := by
  rw [slotBlocks, pure_eq_ok, Prod.mk.injEq]

theorem slotBlocks_cons_eq_ok {item : Definition} {optional : Bool} {since : Nat}
    {rest : List (Slot Definition)} {laid : List (Slot ElementId)} :
    slotBlocks scope above next (⟨item, optional, since⟩ :: rest) = .ok (laid, block) ↔
      ∃ first, Layout.block scope (some above) next item = .ok first ∧
        ∃ others below, slotBlocks scope above (next + first.length) rest = .ok (others, below) ∧
          ⟨next, optional, since⟩ :: others = laid ∧ first ++ below = block := by
  rw [slotBlocks]
  simp only [bind_eq_ok, Prod.exists, pure_eq_ok, Prod.mk.injEq]

theorem partBlocks_nil_eq_ok {laid : List ElementId} :
    partBlocks scope above next [] = .ok (laid, block) ↔ [] = laid ∧ [] = block := by
  rw [partBlocks, pure_eq_ok, Prod.mk.injEq]

theorem partBlocks_cons_eq_ok {part : Definition} {rest : List Definition} {laid : List ElementId} :
    partBlocks scope above next (part :: rest) = .ok (laid, block) ↔ ¬ (!part.isPart) = true ∧
      ∃ first, Layout.block scope (some above) next part = .ok first ∧
        ∃ others below, partBlocks scope above (next + first.length) rest = .ok (others, below) ∧
          next :: others = laid ∧ first ++ below = block := by
  rw [partBlocks, guard_eq_ok]
  simp only [bind_eq_ok, Prod.exists, pure_eq_ok, Prod.mk.injEq]

theorem variantBlocks_nil_eq_ok {laid : List (List ElementId)} :
    variantBlocks scope above next [] = .ok (laid, block) ↔ [] = laid ∧ [] = block := by
  rw [variantBlocks, pure_eq_ok, Prod.mk.injEq]

theorem variantBlocks_cons_eq_ok {variant : List Definition} {rest : List (List Definition)}
    {laid : List (List ElementId)} :
    variantBlocks scope above next (variant :: rest) = .ok (laid, block) ↔
      ∃ parts first, partBlocks scope above next variant = .ok (parts, first) ∧
        ∃ others below, variantBlocks scope above (next + first.length) rest = .ok (others, below) ∧
          parts :: others = laid ∧ first ++ below = block := by
  rw [variantBlocks]
  simp only [bind_eq_ok, Prod.exists, pure_eq_ok, Prod.mk.injEq]

end Dialect.Layout
