import Dialect.Proofs.Renaming.Rules

/-!
# What stands where in a grammar

The elements of a rule take consecutive places, each before what stands in its slots
(`Occupies`).  So from the first element of a rule on, all that is below it is met in the order
of the places (`Occupies.preorder_eq`), and every element but the first stands in a slot of its
parent and in no other (`Occupies.exists_inside`, `OccupyRow.ascending`).

That rules are laid out like this (`Layout.block_occupies`) carries over to the grammar that is
made of them (`ofRules_occupies`).
-/

set_option autoImplicit false

namespace Dialect

/-- The elements that stand in the slots of an element, from left to right.  What a reference
refers to does not stand in it. -/
def Kind.contents {ρ : Type} : Kind ρ → List ElementId
  | .token .. | .identifier .. | .reference _ => []
  | .sequence slots => slots.map Slot.item
  | .wrapper opening content closing _ => [opening, content.item, closing]
  | .oneOf alternatives _ => alternatives.map Slot.item
  | .iteration item separator => item :: separator.toList
  | .qualified variants separator => variants.flatten ++ [separator]

/-- What of an element tells where it belongs. -/
structure Outline where
  rule : Option String
  parent : Option ElementId
  contents : List ElementId

/-- The outline of an element. -/
def Element.outline {ρ : Type} (element : Element ρ) : Outline :=
  ⟨element.rule, element.parent, element.kind.contents⟩

section Occupies

variable (look : ElementId → Option Outline)

mutual

/-- An element stands at `id`, and it and all below it take the places from `id` up to `stop`,
each before what stands in its slots. -/
inductive Occupies : Option String → Option ElementId → Nat → Nat → Prop
  | intro {rule parent contents} {id stop : Nat} (stands : look id = some ⟨rule, parent, contents⟩)
      (row : OccupyRow id (id + 1) contents stop) : Occupies rule parent id stop

/-- The elements of the list, which are the root of no rule and stand in slots of the one above,
take the places from `next` up to `stop` with all below them. -/
inductive OccupyRow : ElementId → Nat → List ElementId → Nat → Prop
  | nil {above} {next : Nat} : OccupyRow above next [] next
  | cons {above rest} {next middle stop : Nat} (first : Occupies none (some above) next middle)
      (others : OccupyRow above middle rest stop) : OccupyRow above next (next :: rest) stop

end

end Occupies

section Facts

variable {look : ElementId → Option Outline}

mutual

theorem Occupies.lt {rule : Option String} {parent : Option ElementId} {id stop : Nat} :
    Occupies look rule parent id stop → id < stop
  | .intro _ row => row.le

theorem OccupyRow.le {above : ElementId} {next stop : Nat} {ids : List ElementId} :
    OccupyRow look above next ids stop → next ≤ stop
  | .nil => Nat.le_refl _
  | .cons first others => Nat.le_trans (Nat.le_of_lt first.lt) others.le

end

variable {above : ElementId} {next middle stop : Nat} {ids others : List ElementId}

theorem OccupyRow.append (first : OccupyRow look above next ids middle)
    (second : OccupyRow look above middle others stop) :
    OccupyRow look above next (ids ++ others) stop := by
  induction ids generalizing next with
  | nil => cases first; exact second
  | cons id rest ih =>
      cases first with
      | cons here behind => exact .cons here (ih behind)

theorem Occupies.single (here : Occupies look none (some above) next stop) :
    OccupyRow look above next [next] stop :=
  .cons here .nil

/-- What stands in the slots of an element stands in ascending places and has the element for its
parent. -/
theorem OccupyRow.ascending (row : OccupyRow look above next ids stop) :
    ids.Pairwise (· < ·) ∧ ∀ id ∈ ids, next ≤ id ∧ id < stop ∧
      ∃ contents, look id = some ⟨none, some above, contents⟩ := by
  induction ids generalizing next with
  | nil => exact ⟨.nil, nofun⟩
  | cons id rest ih =>
      cases row with
      | @cons _ _ _ middle _ first others =>
          obtain ⟨sorted, inside⟩ := ih others
          have here := first.lt
          refine ⟨List.pairwise_cons.2 ⟨fun id member => ?_, sorted⟩, ?_⟩
          · exact Nat.lt_of_lt_of_le here (inside id member).1
          · intro id member
            rcases List.mem_cons.1 member with rfl | later
            · cases first with
              | intro stands row =>
                  exact ⟨Nat.le_refl _, Nat.lt_of_lt_of_le here others.le, _, stands⟩
            · obtain ⟨behind, before, stands⟩ := inside id later
              exact ⟨by omega, before, stands⟩

/-- The element stands in a slot of the one at `above`. -/
def StandsIn (look : ElementId → Option Outline) (above id : ElementId) : Prop :=
  ∃ outline, look above = some outline ∧ id ∈ outline.contents

mutual

/-- Whatever is below an element takes places in the same way, and stands in a slot of its
parent. -/
theorem Occupies.exists_inside {rule : Option String} {parent : Option ElementId} {id stop : Nat}
    {x : Nat} : Occupies look rule parent id stop → id < x → x < stop →
      ∃ above last, last ≤ stop ∧ Occupies look none (some above) x last ∧
        id ≤ above ∧ above < x ∧ StandsIn look above x
  | .intro stands row, behind, before => by
      rcases row.exists_inside behind before with ⟨member, last, inside, here⟩ | found
      · exact ⟨id, last, inside, here, Nat.le_refl _, behind, _, stands, member⟩
      · obtain ⟨above, last, inside, here, later, earlier, standsIn⟩ := found
        exact ⟨above, last, inside, here, Nat.le_of_succ_le later, earlier, standsIn⟩

theorem OccupyRow.exists_inside {above : ElementId} {next stop : Nat} {ids : List ElementId}
    {x : Nat} : OccupyRow look above next ids stop → next ≤ x → x < stop →
      (x ∈ ids ∧ ∃ last, last ≤ stop ∧ Occupies look none (some above) x last) ∨
      ∃ above last, last ≤ stop ∧ Occupies look none (some above) x last ∧
        next ≤ above ∧ above < x ∧ StandsIn look above x
  | .nil, behind, before => absurd before (Nat.not_lt.2 behind)
  | @OccupyRow.cons _ _ _ _ middle _ first others, behind, before => by
      by_cases here : x < middle
      · rcases Nat.eq_or_lt_of_le behind with rfl | behind
        · exact .inl ⟨List.mem_cons_self, middle, others.le, first⟩
        · obtain ⟨above, last, inside, occupies, rest⟩ := first.exists_inside behind here
          exact .inr ⟨above, last, Nat.le_trans inside others.le, occupies, rest⟩
      · have later := first.lt
        rcases others.exists_inside (Nat.le_of_not_lt here) before with
          ⟨member, found⟩ | ⟨above, last, inside, occupies, further, rest⟩
        · exact .inl ⟨List.mem_cons_of_mem _ member, found⟩
        · exact .inr ⟨above, last, inside, occupies, by omega, rest⟩

end

/-- The element and all below it, each before what stands in its slots, with at most `levels`
levels of slots. -/
def preorderFrom (look : ElementId → Option Outline) : (levels : Nat) → ElementId → List ElementId
  | 0, _ => []
  | levels + 1, id =>
      id :: (((look id).map Outline.contents).getD []).flatMap (preorderFrom look levels)

mutual

/-- **All that is below an element is met in the order of the places.** -/
theorem Occupies.preorder_eq {rule : Option String} {parent : Option ElementId} {id stop : Nat} :
    ∀ {levels : Nat}, Occupies look rule parent id stop → stop - id ≤ levels →
      preorderFrom look levels id = List.range' id (stop - id)
  | levels, .intro stands row, enough => by
      have wide := row.le
      obtain ⟨levels, rfl⟩ : ∃ below, levels = below + 1 := ⟨levels - 1, by omega⟩
      have count : stop - id = (stop - (id + 1)) + 1 := by omega
      rw [preorderFrom, stands, Option.map_some, Option.getD_some,
        row.preorder_eq (by omega), count, List.range'_succ]

theorem OccupyRow.preorder_eq {above : ElementId} {next stop : Nat} {ids : List ElementId} :
    ∀ {levels : Nat}, OccupyRow look above next ids stop → stop - next ≤ levels →
      ids.flatMap (preorderFrom look levels) = List.range' next (stop - next)
  | levels, .nil, _ => by rw [Nat.sub_self]; rfl
  | levels, @OccupyRow.cons _ _ _ _ middle _ first others, enough => by
      have here := first.lt
      have behind := others.le
      rw [List.flatMap_cons, first.preorder_eq (by omega), others.preorder_eq (by omega)]
      have count : stop - next = (middle - next) + (stop - middle) := by omega
      have start : middle = next + (middle - next) := by omega
      rw [count, ← List.range'_append_1, ← start]

end

end Facts

/-! ### Blocks -/

namespace Layout

/-- The rule of which the element at a place is the root, if it is one. -/
def Scope.rootAt (scope : Scope) (id : ElementId) : Option String :=
  if id = scope.root then some scope.rule else none

/-- No root of a rule stands at `first` or behind. -/
def Scope.Bare (scope : Scope) (first : Nat) : Prop :=
  ∀ id : Nat, first ≤ id → scope.rootAt id = none

theorem Scope.Bare.later {scope : Scope} {first next : Nat} (bare : scope.Bare first)
    (behind : first ≤ next) : scope.Bare next :=
  fun id further => bare id (Nat.le_trans behind further)

theorem Scope.bare_root (scope : Scope) : scope.Bare (scope.root + 1) :=
  fun _ behind => if_neg (Nat.ne_of_gt behind)

theorem element_outline (scope : Scope) (parent : Option ElementId) (id : ElementId)
    (kind : Kind Mention) :
    (element scope parent id kind).outline = ⟨scope.rootAt id, parent, kind.contents⟩ := by
  unfold element Scope.rootAt
  split <;> rfl

/-- The elements of the list stand one after the other from `id` on, as far as their outlines
go. -/
abbrev Outlined (look : ElementId → Option Outline) : ElementId → Block → Prop :=
  Along fun id element => look id = some element.outline

section Blocks

variable {scope : Scope} {look : ElementId → Option Outline}

/-- An element before what stands in its slots. -/
theorem occupies_cons {parent : Option ElementId} {id : Nat} {kind : Kind Mention} {below : Block}
    (held : Outlined look id (element scope parent id kind :: below))
    (row : OccupyRow look id (id + 1) kind.contents (id + 1 + below.length)) :
    Occupies look (scope.rootAt id) parent id
      (id + (element scope parent id kind :: below).length) := by
  rw [List.length_cons, Nat.add_comm below.length 1, ← Nat.add_assoc]
  exact .intro (held.1.trans (congrArg some (element_outline scope parent id kind))) row

theorem token_occupies {parent : Option ElementId} {id : Nat} {type : String} {text : Option String}
    {flavor : Option Category} {block : Block}
    (laid : token scope parent id type text flavor = .ok block) (held : Outlined look id block) :
    Occupies look (scope.rootAt id) parent id (id + block.length) := by
  obtain ⟨-, known, -, rfl⟩ := token_eq_ok.1 laid
  exact occupies_cons held .nil

/-- A delimiter or a separator in the last slot. -/
theorem delimiter_occupies {parent id : Nat} {type : String} {block : Block}
    (bare : scope.Bare id) (laid : delimiter scope parent id type = .ok block)
    (held : Outlined look id block) : OccupyRow look parent id [id] (id + block.length) := by
  have here := token_occupies laid held
  rw [bare id (Nat.le_refl _)] at here
  exact here.single

variable [Alphabet]

mutual

/-- **The block of a definition takes consecutive places, each element before what stands in its
slots.** -/
theorem block_occupies {parent : Option ElementId} {id : Nat} (bare : scope.Bare (id + 1)) :
    ∀ {definition : Definition} {block : Block},
      Layout.block scope parent id definition = .ok block → Outlined look id block →
        Occupies look (scope.rootAt id) parent id (id + block.length)
  | .token type text flavor, block, laid, held => by
      rw [Layout.block] at laid
      exact token_occupies laid held
  | .identifier use isAlias object, block, laid, held => by
      obtain ⟨-, rfl⟩ := block_identifier_eq_ok.1 laid
      exact occupies_cons held .nil
  | .sequence slots, block, laid, held => by
      obtain ⟨-, -, laidSlots, below, laidBelow, rfl⟩ := block_sequence_eq_ok.1 laid
      exact occupies_cons held (slotBlocks_occupies bare laidBelow held.2)
  | .wrapper opening ⟨content, optional, since⟩ closing repeated, block, laid, held => by
      obtain ⟨-, first, laidFirst, middle, laidMiddle, last, laidLast, rfl⟩ :=
        block_wrapper_eq_ok.1 laid
      obtain ⟨heldInside, heldLast⟩ := along_append.1 held.2
      obtain ⟨heldFirst, heldMiddle⟩ := along_append.1 heldInside
      rw [List.length_append, ← Nat.add_assoc] at heldLast
      have opens := delimiter_occupies bare laidFirst heldFirst
      have holds := block_occupies (bare.later (by omega)) laidMiddle heldMiddle
      -- Only the first element of a rule bears its name, and that one is before this block.
      rw [bare _ (by omega)] at holds
      have closes := delimiter_occupies (bare.later (by omega)) laidLast heldLast
      refine occupies_cons held ?_
      rw [List.length_append, List.length_append, ← Nat.add_assoc, ← Nat.add_assoc]
      exact opens.append (holds.single.append closes)
  | .oneOf alternatives sortable, block, laid, held => by
      obtain ⟨-, -, laidSlots, below, laidBelow, rfl⟩ := block_oneOf_eq_ok.1 laid
      exact occupies_cons held (slotBlocks_occupies bare laidBelow held.2)
  | .iteration item none, block, laid, held => by
      obtain ⟨-, below, laidBelow, rfl⟩ := block_iteration_eq_ok.1 laid
      have repeats := block_occupies (bare.later (by omega)) laidBelow held.2
      rw [bare _ (Nat.le_refl _)] at repeats
      exact occupies_cons held repeats.single
  | .iteration item (some separator), block, laid, held => by
      obtain ⟨-, below, laidBelow, last, laidLast, rfl⟩ := block_separated_eq_ok.1 laid
      obtain ⟨heldBelow, heldLast⟩ := along_append.1 held.2
      have repeats := block_occupies (bare.later (by omega)) laidBelow heldBelow
      rw [bare _ (Nat.le_refl _)] at repeats
      have separates := delimiter_occupies (bare.later (by omega)) laidLast heldLast
      refine occupies_cons held ?_
      rw [List.length_append, ← Nat.add_assoc]
      exact repeats.single.append separates
  | .qualified variants separator, block, laid, held => by
      obtain ⟨-, -, laidVariants, below, laidBelow, last, laidLast, rfl⟩ :=
        block_qualified_eq_ok.1 laid
      obtain ⟨heldBelow, heldLast⟩ := along_append.1 held.2
      have names := variantBlocks_occupies bare laidBelow heldBelow
      have separates := delimiter_occupies (bare.later (by omega)) laidLast heldLast
      refine occupies_cons held ?_
      rw [List.length_append, ← Nat.add_assoc]
      exact names.append separates
  | .reference rule, block, laid, held => by
      obtain ⟨-, -, rfl⟩ := block_reference_eq_ok.1 laid
      exact occupies_cons held .nil

theorem slotBlocks_occupies {parent next : Nat} (bare : scope.Bare next) :
    ∀ {slots : List (Slot Definition)} {laidSlots : List (Slot ElementId)} {block : Block},
      slotBlocks scope parent next slots = .ok (laidSlots, block) → Outlined look next block →
        OccupyRow look parent next (laidSlots.map Slot.item) (next + block.length)
  | [], laidSlots, block, laid, held => by
      obtain ⟨rfl, rfl⟩ := slotBlocks_nil_eq_ok.1 laid
      exact .nil
  | ⟨item, optional, since⟩ :: rest, laidSlots, block, laid, held => by
      obtain ⟨first, laidFirst, others, below, laidBelow, rfl, rfl⟩ := slotBlocks_cons_eq_ok.1 laid
      obtain ⟨heldFirst, heldBelow⟩ := along_append.1 held
      have fills := block_occupies (bare.later (by omega)) laidFirst heldFirst
      rw [bare next (Nat.le_refl _)] at fills
      rw [List.length_append, ← Nat.add_assoc]
      exact .cons fills (slotBlocks_occupies (bare.later (by omega)) laidBelow heldBelow)

theorem partBlocks_occupies {parent next : Nat} (bare : scope.Bare next) :
    ∀ {variant : List Definition} {parts : List ElementId} {block : Block},
      partBlocks scope parent next variant = .ok (parts, block) → Outlined look next block →
        OccupyRow look parent next parts (next + block.length)
  | [], parts, block, laid, held => by
      obtain ⟨rfl, rfl⟩ := partBlocks_nil_eq_ok.1 laid
      exact .nil
  | part :: rest, parts, block, laid, held => by
      obtain ⟨-, first, laidFirst, others, below, laidBelow, rfl, rfl⟩ :=
        partBlocks_cons_eq_ok.1 laid
      obtain ⟨heldFirst, heldBelow⟩ := along_append.1 held
      have fills := block_occupies (bare.later (by omega)) laidFirst heldFirst
      rw [bare next (Nat.le_refl _)] at fills
      rw [List.length_append, ← Nat.add_assoc]
      exact .cons fills (partBlocks_occupies (bare.later (by omega)) laidBelow heldBelow)

theorem variantBlocks_occupies {parent next : Nat} (bare : scope.Bare next) :
    ∀ {variants : List (List Definition)} {laidVariants : List (List ElementId)} {block : Block},
      variantBlocks scope parent next variants = .ok (laidVariants, block) →
        Outlined look next block →
          OccupyRow look parent next laidVariants.flatten (next + block.length)
  | [], laidVariants, block, laid, held => by
      obtain ⟨rfl, rfl⟩ := variantBlocks_nil_eq_ok.1 laid
      exact .nil
  | variant :: rest, laidVariants, block, laid, held => by
      obtain ⟨parts, first, laidFirst, others, below, laidBelow, rfl, rfl⟩ :=
        variantBlocks_cons_eq_ok.1 laid
      obtain ⟨heldFirst, heldBelow⟩ := along_append.1 held
      rw [List.length_append, ← Nat.add_assoc, List.flatten_cons]
      exact (partBlocks_occupies bare laidFirst heldFirst).append
        (variantBlocks_occupies (bare.later (by omega)) laidBelow heldBelow)

end

end Blocks

end Layout

/-! ### Grammars -/

/-- Linking fills no slot with something else. -/
theorem Kind.contents_of_link {ρ σ ε : Type} {resolve : ρ → Except ε σ} {kind : Kind ρ}
    {linked : Kind σ} (done : kind.link resolve = .ok linked) :
    linked.contents = kind.contents := by
  cases kind with
  | reference target =>
      obtain ⟨id, -, rfl⟩ := map_eq_ok.1 done
      rfl
  | _ => cases done; rfl

namespace Grammar

/-- The outline of the element with the given id. -/
def outline (g : Grammar) (id : ElementId) : Option Outline := g.elements[id]?.map Element.outline

/-- Linking changes no outline. -/
theorem link_outline {resolve : Mention → Except DefinitionError ElementId}
    {element : Element Mention} {after : Element ElementId}
    (done : element.link resolve = .ok after) : after.outline = element.outline := by
  obtain ⟨kind, linked, rfl⟩ := map_eq_ok.1 done
  exact congrArg (Outline.mk element.rule element.parent) (Kind.contents_of_link linked)

section Built

variable [Alphabet] {vocabulary : Vocabulary} {rules : List Rule} {root : Option String}
  {g : Grammar}
  (built : ofRules vocabulary rules root = .ok g)

include built

/-- The rules stand in their order, each where the one before ends. -/
theorem rules_eq_of_ofRules :
    g.rules = (places ruleWidth 0 rules).map fun place => (place.2.name, place.1) := by
  obtain ⟨draft, elements, start, -, laid, -, -, rfl, -⟩ := ofRules_eq_ok built
  exact (layOut_lines laid).rules_eq

/-- There are no other elements than those of the rules. -/
theorem size_eq_of_ofRules : g.elements.size = extent ruleWidth rules := by
  obtain ⟨draft, elements, start, -, laid, linked, -, rfl, -⟩ := ofRules_eq_ok built
  rw [← (layOut_lines laid).length_eq, ← link_length linked]
  simp

/-- **Each rule takes consecutive places**, each element before what stands in its slots. -/
theorem ofRules_occupies {start : Nat} {rule : Rule}
    (member : (start, rule) ∈ places ruleWidth 0 rules) :
    Occupies g.outline (some rule.name) none start (start + ruleWidth rule) := by
  obtain ⟨draft, elements, from_, -, laid, linked, -, rfl, -⟩ := ofRules_eq_ok built
  obtain ⟨block, laidBlock, stands⟩ := (layOut_lines laid).blocks _ member
  have width : block.length = ruleWidth rule := Layout.block_length laidBlock
  have held : Layout.Outlined
      (Grammar.outline ⟨vocabulary, elements.toArray, draft.rules, from_⟩) start block := by
    refine Layout.along_iff.2 fun k element found => ?_
    have inside : k < block.length := (List.getElem?_eq_some_iff.1 found).1
    have written : draft.elements[start + k]? = some element := (stands k inside).trans found
    obtain ⟨after, there, done⟩ := (getElem?_of_mapM_eq_ok linked).2 _ element written
    simp [outline, there, link_outline done]
  have occupies := Layout.block_occupies (Layout.Scope.bare_root _) laidBlock held
  rw [width] at occupies
  simpa [Layout.Scope.rootAt] using occupies

end Built

end Grammar

end Dialect
