import Dialect.Proofs.Grammar.Blocks

/-!
# Where the elements of a grammar lie

Every element of a laid-out definition mentions elements that lie after it in the
same block, and its delimiters, separators and name parts are leaves
(`Layout.block_placed`).
-/

set_option autoImplicit false

namespace Dialect

namespace Kind

variable {ρ : Type} (vocabulary : Vocabulary) (look : ElementId → Option (Kind ρ))

/-- A token element without restrictions stands at `id`, after `own`. -/
def Delimits (own id : Nat) : Prop :=
  own < id ∧ ∃ type, look id = some (.token type none none)

/-- A leaf stands at `id`, after `own`. -/
def PartOf (own id : Nat) : Prop :=
  own < id ∧ ∃ kind, look id = some kind ∧ kind.isLeaf = true

/-- Some element stands at `id`, after `own`. -/
def Contains (own id : Nat) : Prop := own < id ∧ (look id).isSome = true

/-- Whether what an element mentions stands where it should, when `look` tells what
stands where and the element itself stands at `own`. -/
def Placed (own : Nat) : Kind ρ → Prop
  | .token type .. => type < vocabulary.types.size
  | .identifier .. => True
  | .sequence slots => ∀ slot ∈ slots, Contains look own slot.item
  | .wrapper opening content closing _ =>
      Delimits look own opening ∧ Contains look own content.item ∧ Delimits look own closing
  | .oneOf alternatives _ => ∀ slot ∈ alternatives, Contains look own slot.item
  | .iteration item separator =>
      Contains look own item ∧ ∀ between ∈ separator, Delimits look own between
  | .qualified variants separator =>
      variants ≠ [] ∧
        (∀ variant ∈ variants, variant ≠ [] ∧ ∀ part ∈ variant, PartOf look own part) ∧
        Delimits look own separator
  | .reference _ => True

end Kind

namespace Layout

variable {ρ : Type}

/-- The property holds of each item of the list and its place, counted from `start` on. -/
def Along {α : Type} (holds : Nat → α → Prop) : Nat → List α → Prop
  | _, [] => True
  | start, first :: rest => holds start first ∧ Along holds (start + 1) rest

theorem along_iff {α : Type} {holds : Nat → α → Prop} {start : Nat} {items : List α} :
    Along holds start items ↔
      ∀ (k : Nat) item, items[k]? = some item → holds (start + k) item := by
  induction items generalizing start with
  | nil => simp [Along]
  | cons head rest ih =>
      rw [Along, ih]
      constructor
      · rintro ⟨first, others⟩ k item found
        cases k with
        | zero =>
            obtain rfl : head = item := by simpa using found
            exact first
        | succ k =>
            rw [← Nat.add_assoc, Nat.add_right_comm]
            exact others k item (by simpa using found)
      · intro every
        refine ⟨every 0 head rfl, fun k item found => ?_⟩
        rw [Nat.add_right_comm, Nat.add_assoc]
        exact every (k + 1) item (by simpa using found)

theorem along_append {α : Type} {holds : Nat → α → Prop} {start : Nat} {first second : List α} :
    Along holds start (first ++ second) ↔
      Along holds start first ∧ Along holds (start + first.length) second := by
  induction first generalizing start with
  | nil => simp [Along]
  | cons item rest ih =>
      simp only [List.cons_append, Along, ih, List.length_cons, and_assoc]
      rw [Nat.add_right_comm, Nat.add_assoc]

/-- The elements of the list stand one after the other from `id` on. -/
abbrev Holds (look : ElementId → Option (Kind ρ)) : ElementId → List (Element ρ) → Prop :=
  Along fun id element => look id = some element.kind

/-- The elements of the list, which stand one after the other from `id` on, are well
placed. -/
abbrev AllPlaced (vocabulary : Vocabulary) (look : ElementId → Option (Kind ρ)) :
    ElementId → List (Element ρ) → Prop :=
  Along fun id element => element.kind.Placed vocabulary look id

/-! ### Blocks -/

section Blocks

variable {scope : Scope} {look : ElementId → Option (Kind Mention)}

@[simp] theorem element_id (parent : Option ElementId) (id : ElementId) (kind : Kind Mention) :
    (element scope parent id kind).id = id := by
  unfold element
  split <;> rfl

@[simp] theorem element_kind (parent : Option ElementId) (id : ElementId) (kind : Kind Mention) :
    (element scope parent id kind).kind = kind := by
  unfold element
  split <;> rfl

theorem lookup?_lt {vocabulary : Vocabulary} {name : String} {type : TokenTypeId}
    (found : vocabulary.lookup? name = some type) : type < vocabulary.types.size :=
  (Array.findIdx?_eq_some_iff_findIdx_eq.1 found).1

theorem resolve_lt {vocabulary : Vocabulary} {name : String} {type : TokenTypeId}
    (resolved : vocabulary.resolve name = .ok type) : type < vocabulary.types.size := by
  unfold Vocabulary.resolve at resolved
  split at resolved
  · rename_i found
    cases resolved
    exact lookup?_lt found
  · cases resolved

/-- A delimiter is one token element, and it is well placed. -/
theorem delimiter_placed {parent id : ElementId} {type : String} {block : Block}
    (laid : delimiter scope parent id type = .ok block) (held : Holds look id block) :
    block.length = 1 ∧ AllPlaced scope.vocabulary look id block ∧
      ∃ known, look id = some (.token known none none) := by
  obtain ⟨-, known, resolved, rfl⟩ := token_eq_ok.1 laid
  simp only [Along, element_kind] at held
  exact ⟨rfl, by simpa [Along, Kind.Placed] using resolve_lt resolved, known, held.1⟩

variable [Alphabet]

mutual

/-- **Blocks are well placed.**  Wherever the block of a definition stands, all its
elements are well placed, and it begins with an element that is a leaf if the
definition may be part of a name. -/
theorem block_placed {parent : Option ElementId} {id : ElementId} :
    ∀ {definition : Definition} {block : Block},
      Layout.block scope parent id definition = .ok block → Holds look id block →
        AllPlaced scope.vocabulary look id block ∧
          ∃ kind, look id = some kind ∧ (definition.isPart = true → kind.isLeaf = true)
  | .token type text flavor, block, laid, held => by
      rw [Layout.block] at laid
      obtain ⟨-, known, resolved, rfl⟩ := token_eq_ok.1 laid
      simp only [Along, element_kind] at held
      exact ⟨by simpa [Along, Kind.Placed] using resolve_lt resolved, _, held.1, fun _ => rfl⟩
  | .identifier use isAlias object, block, laid, held => by
      obtain ⟨-, rfl⟩ := block_identifier_eq_ok.1 laid
      simp only [Along, element_kind] at held
      exact ⟨by simp [Along, Kind.Placed], _, held.1, fun _ => rfl⟩
  | .sequence slots, block, laid, held => by
      obtain ⟨-, -, laidSlots, below, laidBelow, rfl⟩ := block_sequence_eq_ok.1 laid
      simp only [Along, element_kind] at held
      obtain ⟨placed, inside⟩ := slotBlocks_placed laidBelow held.2
      refine ⟨⟨?_, placed⟩, _, held.1, by simp [Definition.isPart]⟩
      simpa [Kind.Placed, Kind.Contains, Nat.succ_le_iff] using inside
  | .wrapper opening ⟨content, optional, since⟩ closing repeated, block, laid, held => by
      obtain ⟨-, first, laidFirst, middle, laidMiddle, last, laidLast, rfl⟩ :=
        block_wrapper_eq_ok.1 laid
      simp only [Along, element_kind, along_append, List.length_append, ← Nat.add_assoc] at held
      obtain ⟨own, ⟨heldFirst, heldMiddle⟩, heldLast⟩ := held
      obtain ⟨-, placedFirst, opens⟩ := delimiter_placed laidFirst heldFirst
      obtain ⟨placedMiddle, kind, stands, -⟩ := block_placed laidMiddle heldMiddle
      obtain ⟨-, placedLast, closes⟩ := delimiter_placed laidLast heldLast
      refine ⟨⟨?_, ?_⟩, _, own, by simp [Definition.isPart]⟩
      · simp only [element_kind]
        exact ⟨⟨by omega, opens⟩, ⟨by dsimp only; omega, by simp [stands]⟩, ⟨by omega, closes⟩⟩
      · simp only [along_append, List.length_append, ← Nat.add_assoc]
        exact ⟨⟨placedFirst, placedMiddle⟩, placedLast⟩
  | .oneOf alternatives sortable, block, laid, held => by
      obtain ⟨-, -, laidSlots, below, laidBelow, rfl⟩ := block_oneOf_eq_ok.1 laid
      simp only [Along, element_kind] at held
      obtain ⟨placed, inside⟩ := slotBlocks_placed laidBelow held.2
      refine ⟨⟨?_, placed⟩, _, held.1, by simp [Definition.isPart]⟩
      simpa [Kind.Placed, Kind.Contains, Nat.succ_le_iff] using inside
  | .iteration item none, block, laid, held => by
      obtain ⟨-, below, laidBelow, rfl⟩ := block_iteration_eq_ok.1 laid
      simp only [Along, element_kind] at held
      obtain ⟨placed, kind, stands, -⟩ := block_placed laidBelow held.2
      refine ⟨⟨?_, placed⟩, _, held.1, by simp [Definition.isPart]⟩
      simp [Kind.Placed, Kind.Contains, stands]
  | .iteration item (some separator), block, laid, held => by
      obtain ⟨-, below, laidBelow, last, laidLast, rfl⟩ := block_separated_eq_ok.1 laid
      simp only [Along, element_kind, along_append] at held
      obtain ⟨own, heldBelow, heldLast⟩ := held
      obtain ⟨placed, kind, stands, -⟩ := block_placed laidBelow heldBelow
      obtain ⟨-, placedLast, between⟩ := delimiter_placed laidLast heldLast
      refine ⟨⟨?_, along_append.2 ⟨placed, placedLast⟩⟩, _, own, by simp [Definition.isPart]⟩
      simp only [element_kind]
      refine ⟨⟨Nat.lt_succ_self id, by simp [stands]⟩, fun other same => ?_⟩
      obtain rfl := Option.mem_some.1 same
      exact ⟨by omega, between⟩
  | .qualified variants separator, block, laid, held => by
      obtain ⟨-, filled, laidVariants, below, laidBelow, last, laidLast, rfl⟩ :=
        block_qualified_eq_ok.1 laid
      simp only [Along, element_kind, along_append] at held
      obtain ⟨own, heldBelow, heldLast⟩ := held
      obtain ⟨placed, some, inside⟩ := variantBlocks_placed laidBelow heldBelow
      obtain ⟨-, placedLast, between⟩ := delimiter_placed laidLast heldLast
      refine ⟨⟨?_, along_append.2 ⟨placed, placedLast⟩⟩, _, own, by simp [Definition.isPart]⟩
      simp only [element_kind]
      -- Layout has refused a name without variants and a variant without parts.
      refine ⟨some ?_, fun variant member => ⟨?_, fun part partOf => ?_⟩, by omega, between⟩
      · rintro rfl
        exact filled rfl
      · refine (inside variant member).1 fun written member empty => filled ?_
        simp only [Bool.or_eq_true, List.any_eq_true, List.isEmpty_iff]
        exact Or.inr ⟨written, member, empty⟩
      · exact (inside variant member).2 part partOf
  | .reference rule, block, laid, held => by
      obtain ⟨-, -, rfl⟩ := block_reference_eq_ok.1 laid
      simp only [Along, element_kind] at held
      exact ⟨by simp [Along, Kind.Placed], _, held.1, by simp [Definition.isPart]⟩

/-- The slots of a composite are filled with elements of its block. -/
theorem slotBlocks_placed {parent next : ElementId} :
    ∀ {slots : List (Slot Definition)} {laidSlots : List (Slot ElementId)} {block : Block},
      slotBlocks scope parent next slots = .ok (laidSlots, block) → Holds look next block →
        AllPlaced scope.vocabulary look next block ∧
          ∀ slot ∈ laidSlots, next ≤ slot.item ∧ (look slot.item).isSome = true
  | [], laidSlots, block, laid, held => by
      obtain ⟨rfl, rfl⟩ := slotBlocks_nil_eq_ok.1 laid
      simp [Along]
  | ⟨item, optional, since⟩ :: rest, laidSlots, block, laid, held => by
      obtain ⟨first, laidFirst, others, below, laidBelow, rfl, rfl⟩ := slotBlocks_cons_eq_ok.1 laid
      obtain ⟨heldFirst, heldBelow⟩ := along_append.1 held
      obtain ⟨placedFirst, kind, stands, -⟩ := block_placed laidFirst heldFirst
      obtain ⟨placedBelow, inside⟩ := slotBlocks_placed laidBelow heldBelow
      refine ⟨along_append.2 ⟨placedFirst, placedBelow⟩, fun slot member => ?_⟩
      rcases List.mem_cons.1 member with rfl | later
      · exact ⟨Nat.le_refl _, by simp [stands]⟩
      · exact ⟨Nat.le_trans (Nat.le_add_right ..) (inside slot later).1, (inside slot later).2⟩

/-- The parts of a variant are leaves of its block, and there are parts if any were
written. -/
theorem partBlocks_placed {parent next : ElementId} :
    ∀ {written : List Definition} {parts : List ElementId} {block : Block},
      partBlocks scope parent next written = .ok (parts, block) → Holds look next block →
        AllPlaced scope.vocabulary look next block ∧ (written ≠ [] → parts ≠ []) ∧
          ∀ part ∈ parts, next ≤ part ∧ ∃ kind, look part = some kind ∧ kind.isLeaf = true
  | [], parts, block, laid, held => by
      obtain ⟨rfl, rfl⟩ := partBlocks_nil_eq_ok.1 laid
      simp [Along]
  | part :: rest, parts, block, laid, held => by
      obtain ⟨isPart, first, laidFirst, others, below, laidBelow, rfl, rfl⟩ :=
        partBlocks_cons_eq_ok.1 laid
      obtain ⟨heldFirst, heldBelow⟩ := along_append.1 held
      obtain ⟨placedFirst, kind, stands, leaf⟩ := block_placed laidFirst heldFirst
      obtain ⟨placedBelow, -, inside⟩ := partBlocks_placed laidBelow heldBelow
      refine ⟨along_append.2 ⟨placedFirst, placedBelow⟩, fun _ => List.cons_ne_nil _ _,
        fun other member => ?_⟩
      rcases List.mem_cons.1 member with rfl | later
      · exact ⟨Nat.le_refl _, kind, stands, leaf (by simpa using isPart)⟩
      · exact ⟨Nat.le_trans (Nat.le_add_right ..) (inside other later).1, (inside other later).2⟩

/-- The parts of all variants are leaves of the block, and there are variants if any were
written. -/
theorem variantBlocks_placed {parent next : ElementId} :
    ∀ {written : List (List Definition)} {variants : List (List ElementId)} {block : Block},
      variantBlocks scope parent next written = .ok (variants, block) → Holds look next block →
        AllPlaced scope.vocabulary look next block ∧ (written ≠ [] → variants ≠ []) ∧
          ∀ variant ∈ variants, ((∀ parts ∈ written, parts ≠ []) → variant ≠ []) ∧
            ∀ part ∈ variant, next ≤ part ∧ ∃ kind, look part = some kind ∧ kind.isLeaf = true
  | [], variants, block, laid, held => by
      obtain ⟨rfl, rfl⟩ := variantBlocks_nil_eq_ok.1 laid
      simp [Along]
  | variant :: rest, variants, block, laid, held => by
      obtain ⟨parts, first, laidFirst, others, below, laidBelow, rfl, rfl⟩ :=
        variantBlocks_cons_eq_ok.1 laid
      obtain ⟨heldFirst, heldBelow⟩ := along_append.1 held
      obtain ⟨placedFirst, filled, leaves⟩ := partBlocks_placed laidFirst heldFirst
      obtain ⟨placedBelow, -, inside⟩ := variantBlocks_placed laidBelow heldBelow
      refine ⟨along_append.2 ⟨placedFirst, placedBelow⟩, fun _ => List.cons_ne_nil _ _,
        fun other member => ?_⟩
      rcases List.mem_cons.1 member with rfl | later
      · exact ⟨fun allFilled => filled (allFilled _ List.mem_cons_self), leaves⟩
      · obtain ⟨otherFilled, otherLeaves⟩ := inside other later
        refine ⟨fun allFilled => otherFilled fun parts inRest =>
          allFilled parts (List.mem_cons_of_mem _ inRest), fun part partOf => ?_⟩
        exact ⟨Nat.le_trans (Nat.le_add_right ..) (otherLeaves part partOf).1,
          (otherLeaves part partOf).2⟩

end

end Blocks

end Layout

end Dialect
