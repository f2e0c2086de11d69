import Dialect.Proofs.Grammar.WellFormed
import Mathlib.Data.List.Forall2

/-!
# What the elements of a grammar were written as

A definition is laid out as one element for each definition in it, in order
(`Definition.preorder`).  It can be laid out exactly if each of them is sound and there are
ids enough; what comes of each is what it was written as (`LaidOut`).  The same is then said
of a list of rules (`layOut_lays`, `exists_layOut`).
-/

set_option autoImplicit false

namespace Dialect

namespace Definition

mutual

/-- The definition and all definitions in it, each before those in it.  A delimiter and a
separator are token definitions without restrictions. -/
def preorder : Definition → List Definition
  | .token type text flavor => [.token type text flavor]
  | .identifier use isAlias object => [.identifier use isAlias object]
  | .sequence slots => .sequence slots :: preorderSlots slots
  | .wrapper opening ⟨content, optional, since⟩ closing repeated =>
      .wrapper opening ⟨content, optional, since⟩ closing repeated ::
        ([.token opening none none] ++ preorder content ++ [.token closing none none])
  | .oneOf alternatives sortable => .oneOf alternatives sortable :: preorderSlots alternatives
  | .iteration item none => .iteration item none :: preorder item
  | .iteration item (some separator) =>
      .iteration item (some separator) :: (preorder item ++ [.token separator none none])
  | .qualified variants separator =>
      .qualified variants separator ::
        (preorderVariants variants ++ [.token separator none none])
  | .reference rule => [.reference rule]

/-- The definitions in the slots of a composite. -/
def preorderSlots : List (Slot Definition) → List Definition
  | [] => []
  | ⟨item, _, _⟩ :: rest => preorder item ++ preorderSlots rest

/-- The definitions in the parts of a variant. -/
def preorderParts : List Definition → List Definition
  | [] => []
  | part :: rest => preorder part ++ preorderParts rest

/-- The definitions in the variants of a qualified identifier. -/
def preorderVariants : List (List Definition) → List Definition
  | [] => []
  | variant :: rest => preorderParts variant ++ preorderVariants rest

end

/-- What is asked of a definition itself, when it is known which token types and which rules
may be mentioned. -/
def Sound (isType isRule : String → Prop) : Definition → Prop
  | .token type _ _ => isType type
  | .identifier .. => True
  | .sequence slots => slots ≠ []
  | .wrapper opening _ closing _ => isType opening ∧ isType closing
  | .oneOf alternatives _ => alternatives ≠ []
  | .iteration _ separator => ∀ type ∈ separator, isType type
  | .qualified variants separator =>
      variants ≠ [] ∧ (∀ variant ∈ variants, variant ≠ [] ∧ ∀ part ∈ variant, part.isPart = true) ∧
        isType separator
  | .reference rule => isRule rule

/-- Only references depend on which rules there are. -/
theorem Sound.of_reference {isType isRule isRule' : String → Prop} {part : Definition}
    (sound : part.Sound isType isRule) (refers : ∀ name, part = .reference name → isRule' name) :
    part.Sound isType isRule' := by
  cases part with
  | reference name => exact refers name rfl
  | _ => exact sound

end Definition

/-- The vocabulary declares a token type of this name. -/
def Vocabulary.Declares (vocabulary : Vocabulary) (name : String) : Prop :=
  ∃ type ∈ vocabulary.types, type.name = name

theorem Vocabulary.resolve_eq_ok {vocabulary : Vocabulary} {name : String} {type : TokenTypeId} :
    vocabulary.resolve name = .ok type ↔ vocabulary.lookup? name = some type := by
  unfold Vocabulary.resolve
  cases vocabulary.lookup? name <;> simp

theorem Vocabulary.declares_iff {vocabulary : Vocabulary} {name : String} :
    vocabulary.Declares name ↔ ∃ type, vocabulary.resolve name = .ok type := by
  simp only [resolve_eq_ok, ← Option.isSome_iff_exists, lookup?, Declares]
  simp [Array.mem_iff_getElem]

namespace Layout

section LaidOut

variable (vocabulary : Vocabulary) (written : ElementId → Option Definition)

/-- The slot is filled with the element that was written into it. -/
def FilledAs (slot : Slot Definition) (laid : Slot ElementId) : Prop :=
  laid = slot.replace laid.item ∧ written laid.item = some slot.item

/-- What becomes of a definition, when `written` tells what definition was written for the
element with each id. -/
inductive LaidOut : Definition → Kind Mention → Prop
  | token {name type text flavor} (resolved : vocabulary.resolve name = .ok type) :
      LaidOut (.token name text flavor) (.token type text flavor)
  | identifier {use isAlias object} :
      LaidOut (.identifier use isAlias object) (.identifier use isAlias object)
  | sequence {slots laid} (filled : List.Forall₂ (FilledAs written) slots laid) :
      LaidOut (.sequence slots) (.sequence laid)
  | wrapper {opening content closing repeated first inner last}
      (opens : written first = some (.token opening none none))
      (filled : FilledAs written content inner)
      (closes : written last = some (.token closing none none)) :
      LaidOut (.wrapper opening content closing repeated) (.wrapper first inner last repeated)
  | oneOf {alternatives sortable laid}
      (filled : List.Forall₂ (FilledAs written) alternatives laid) :
      LaidOut (.oneOf alternatives sortable) (.oneOf laid sortable)
  | iteration {item separator inner between} (repeats : written inner = some item)
      (separates : Option.Rel
        (fun type id => written id = some (.token type none none)) separator between) :
      LaidOut (.iteration item separator) (.iteration inner between)
  | qualified {variants separator laid between}
      (named : List.Forall₂ (List.Forall₂ fun part id => written id = some part) variants laid)
      (joins : written between = some (.token separator none none)) :
      LaidOut (.qualified variants separator) (.qualified laid between)
  | reference {rule mention} (names : mention.target = rule) :
      LaidOut (.reference rule) (.reference mention)

/-- The definitions of the list were written for the elements from `id` on. -/
abbrev Written : ElementId → List Definition → Prop :=
  Along fun id definition => written id = some definition

/-- Each element of the list, which stand one after the other from `id` on, is what was
written for it. -/
abbrev AllLaidOut : ElementId → Block → Prop :=
  Along fun id element =>
    ∃ definition, written id = some definition ∧ LaidOut vocabulary written definition element.kind

end LaidOut

/-- What is asked of a definition for it to be laid out, whatever other rules there are. -/
abbrev Layable [Alphabet] (vocabulary : Vocabulary) : Definition → Prop :=
  Definition.Sound vocabulary.Declares fun rule => Name.isValid rule = true

/-- The elements of the block, which stand from `id` on, are what the definitions were laid
out as. -/
structure Lays [Alphabet] (vocabulary : Vocabulary) (id : ElementId) (definitions : List Definition)
    (block : Block) : Prop where
  length_eq : block.length = definitions.length
  sound : ∀ definition ∈ definitions, Layable vocabulary definition
  laidOut : ∀ written, Written written id definitions → AllLaidOut vocabulary written id block
  numbered : Along (fun id element => element.id = id) id block

section Blocks

variable {scope : Scope} {vocabulary : Vocabulary} {written : ElementId → Option Definition}
  {id next : ElementId} {definition : Definition} {definitions more : List Definition}
  {block below : Block}

variable [Alphabet]

theorem Lays.nil : Lays vocabulary id [] [] := ⟨rfl, by simp, fun _ _ => trivial, trivial⟩

theorem Lays.append (first : Lays vocabulary id definitions block)
    (second : Lays vocabulary (id + block.length) more below) :
    Lays vocabulary id (definitions ++ more) (block ++ below) where
  length_eq := by simp [first.length_eq, second.length_eq]
  sound := by
    intro definition member
    rcases List.mem_append.1 member with here | behind
    · exact first.sound definition here
    · exact second.sound definition behind
  laidOut := by
    intro written stands
    obtain ⟨standsFirst, standsSecond⟩ := along_append.1 stands
    rw [← first.length_eq] at standsSecond
    exact along_append.2 ⟨first.laidOut written standsFirst, second.laidOut written standsSecond⟩
  numbered := along_append.2 ⟨first.numbered, second.numbered⟩

/-- An element before a block. -/
theorem Lays.cons {parent : Option ElementId} {kind : Kind Mention}
    (sound : Layable vocabulary definition)
    (inside : Lays vocabulary (id + 1) definitions below)
    (laidOut : ∀ written, Written written (id + 1) definitions →
      LaidOut vocabulary written definition (element scope parent id kind).kind) :
    Lays vocabulary id (definition :: definitions) (element scope parent id kind :: below) where
  length_eq := by simp [inside.length_eq]
  sound := List.forall_mem_cons.2 ⟨sound, inside.sound⟩
  laidOut := by
    intro written stands
    exact ⟨⟨definition, stands.1, laidOut written stands.2⟩, inside.laidOut written stands.2⟩
  numbered := ⟨element_id parent id kind, inside.numbered⟩

omit [Alphabet] in
theorem Definition.exists_preorder (definition : Definition) :
    ∃ below, definition.preorder = definition :: below := by
  cases definition with
  | wrapper opening content closing repeated =>
      obtain ⟨content, optional, since⟩ := content
      exact ⟨_, by rw [Definition.preorder]⟩
  | iteration item separator => cases separator <;> exact ⟨_, by rw [Definition.preorder]⟩
  | _ => exact ⟨_, by rw [Definition.preorder]⟩

omit [Alphabet] in
theorem written_own (stands : Written written id definition.preorder) :
    written id = some definition := by
  obtain ⟨below, split⟩ := Definition.exists_preorder definition
  rw [split] at stands
  exact stands.1

theorem token_lays {parent : Option ElementId} {type : String} {text : Option String}
    {flavor : Option Category} (laid : token scope parent id type text flavor = .ok block) :
    Lays scope.vocabulary id [.token type text flavor] block := by
  obtain ⟨-, known, resolved, rfl⟩ := token_eq_ok.1 laid
  refine .cons (Vocabulary.declares_iff.2 ⟨known, resolved⟩) .nil fun written stands => ?_
  rw [element_kind]
  exact .token resolved

theorem delimiter_lays {parent : ElementId} {type : String}
    (laid : delimiter scope parent id type = .ok block) :
    Lays scope.vocabulary id [.token type none none] block :=
  token_lays laid

theorem Lays.declares {type : String} (lays : Lays vocabulary id [.token type none none] block) :
    vocabulary.Declares type :=
  lays.sound _ List.mem_cons_self

mutual

/-- **A block is what its definition was laid out as.** -/
theorem block_lays {parent : Option ElementId} {id : ElementId} :
    ∀ {definition : Definition} {block : Block},
      Layout.block scope parent id definition = .ok block →
        Lays scope.vocabulary id definition.preorder block
  | .token type text flavor, block, laid => by
      rw [Layout.block] at laid
      rw [Definition.preorder]
      exact token_lays laid
  | .identifier use isAlias object, block, laid => by
      obtain ⟨-, rfl⟩ := block_identifier_eq_ok.1 laid
      rw [Definition.preorder]
      refine .cons trivial .nil fun written _ => ?_
      rw [element_kind]
      exact .identifier
  | .sequence slots, block, laid => by
      obtain ⟨-, nonempty, laidSlots, below, laidBelow, rfl⟩ := block_sequence_eq_ok.1 laid
      obtain ⟨lays, filled⟩ := slotBlocks_lays laidBelow
      rw [Definition.preorder]
      refine .cons (by simpa [Definition.Sound] using nonempty) lays fun written stands => ?_
      rw [element_kind]
      exact .sequence (filled written stands)
  | .wrapper opening ⟨content, optional, since⟩ closing repeated, block, laid => by
      obtain ⟨-, first, laidFirst, middle, laidMiddle, last, laidLast, rfl⟩ :=
        block_wrapper_eq_ok.1 laid
      have opens := delimiter_lays laidFirst
      have holds := block_lays laidMiddle
      have closes := delimiter_lays laidLast
      rw [Definition.preorder]
      refine .cons ⟨opens.declares, closes.declares⟩ ((opens.append holds).append ?_)
        fun written stands => ?_
      · rw [List.length_append, ← Nat.add_assoc]
        exact closes
      · -- The ids of the three parts follow from how many elements the parts before them have.
        obtain ⟨stands, standsLast⟩ := along_append.1 stands
        obtain ⟨standsFirst, standsMiddle⟩ := along_append.1 stands
        rw [List.length_append, ← opens.length_eq, ← holds.length_eq, ← Nat.add_assoc] at standsLast
        rw [← opens.length_eq] at standsMiddle
        rw [element_kind]
        exact .wrapper standsFirst.1 ⟨rfl, written_own standsMiddle⟩ standsLast.1
  | .oneOf alternatives sortable, block, laid => by
      obtain ⟨-, nonempty, laidSlots, below, laidBelow, rfl⟩ := block_oneOf_eq_ok.1 laid
      obtain ⟨lays, filled⟩ := slotBlocks_lays laidBelow
      rw [Definition.preorder]
      refine .cons (by simpa [Definition.Sound] using nonempty) lays fun written stands => ?_
      rw [element_kind]
      exact .oneOf (filled written stands)
  | .iteration item none, block, laid => by
      obtain ⟨-, below, laidBelow, rfl⟩ := block_iteration_eq_ok.1 laid
      rw [Definition.preorder]
      refine .cons (by simp [Definition.Sound]) (block_lays laidBelow) fun written stands => ?_
      rw [element_kind]
      exact .iteration (written_own stands) .none
  | .iteration item (some separator), block, laid => by
      obtain ⟨-, below, laidBelow, last, laidLast, rfl⟩ := block_separated_eq_ok.1 laid
      have repeats := block_lays laidBelow
      have separates := delimiter_lays laidLast
      rw [Definition.preorder]
      refine .cons ?_ (repeats.append separates) fun written stands => ?_
      · intro type same
        obtain rfl := Option.mem_some.1 same
        exact separates.declares
      · obtain ⟨standsBelow, standsLast⟩ := along_append.1 stands
        rw [← repeats.length_eq] at standsLast
        rw [element_kind]
        exact .iteration (written_own standsBelow) (.some standsLast.1)
  | .qualified variants separator, block, laid => by
      obtain ⟨-, nonempty, laidVariants, below, laidBelow, last, laidLast, rfl⟩ :=
        block_qualified_eq_ok.1 laid
      obtain ⟨lays, parts, named⟩ := variantBlocks_lays laidBelow
      have separates := delimiter_lays laidLast
      simp only [Bool.or_eq_true, List.isEmpty_iff, List.any_eq_true, not_or, not_exists,
        not_and] at nonempty
      rw [Definition.preorder]
      refine .cons ⟨nonempty.1, fun variant member => ⟨nonempty.2 variant member,
        parts variant member⟩, separates.declares⟩ (lays.append separates) fun written stands => ?_
      obtain ⟨standsBelow, standsLast⟩ := along_append.1 stands
      rw [← lays.length_eq] at standsLast
      rw [element_kind]
      exact .qualified (named written standsBelow) standsLast.1
  | .reference rule, block, laid => by
      obtain ⟨-, valid, rfl⟩ := block_reference_eq_ok.1 laid
      rw [Definition.preorder]
      refine .cons (by simpa [Definition.Sound] using valid) .nil fun written _ => ?_
      rw [element_kind]
      exact .reference rfl

theorem slotBlocks_lays {parent next : ElementId} :
    ∀ {slots : List (Slot Definition)} {laidSlots : List (Slot ElementId)} {block : Block},
      slotBlocks scope parent next slots = .ok (laidSlots, block) →
        Lays scope.vocabulary next (Definition.preorderSlots slots) block ∧
          ∀ written, Written written next (Definition.preorderSlots slots) →
            List.Forall₂ (FilledAs written) slots laidSlots
  | [], laidSlots, block, laid => by
      obtain ⟨rfl, rfl⟩ := slotBlocks_nil_eq_ok.1 laid
      rw [Definition.preorderSlots]
      exact ⟨.nil, fun _ _ => .nil⟩
  | ⟨item, optional, since⟩ :: rest, laidSlots, block, laid => by
      obtain ⟨first, laidFirst, others, below, laidBelow, rfl, rfl⟩ := slotBlocks_cons_eq_ok.1 laid
      have fills := block_lays laidFirst
      obtain ⟨lays, filled⟩ := slotBlocks_lays laidBelow
      rw [Definition.preorderSlots]
      refine ⟨fills.append lays, fun written stands => ?_⟩
      obtain ⟨standsFirst, standsBelow⟩ := along_append.1 stands
      rw [← fills.length_eq] at standsBelow
      exact .cons ⟨rfl, written_own standsFirst⟩ (filled written standsBelow)

theorem partBlocks_lays {parent next : ElementId} :
    ∀ {variant : List Definition} {parts : List ElementId} {block : Block},
      partBlocks scope parent next variant = .ok (parts, block) →
        Lays scope.vocabulary next (Definition.preorderParts variant) block ∧
          (∀ part ∈ variant, part.isPart = true) ∧
          ∀ written, Written written next (Definition.preorderParts variant) →
            List.Forall₂ (fun part id => written id = some part) variant parts
  | [], parts, block, laid => by
      obtain ⟨rfl, rfl⟩ := partBlocks_nil_eq_ok.1 laid
      rw [Definition.preorderParts]
      exact ⟨.nil, by simp, fun _ _ => .nil⟩
  | part :: rest, parts, block, laid => by
      obtain ⟨isPart, first, laidFirst, others, below, laidBelow, rfl, rfl⟩ :=
        partBlocks_cons_eq_ok.1 laid
      have fills := block_lays laidFirst
      obtain ⟨lays, areParts, named⟩ := partBlocks_lays laidBelow
      rw [Definition.preorderParts]
      refine ⟨fills.append lays, List.forall_mem_cons.2 ⟨by simpa using isPart, areParts⟩,
        fun written stands => ?_⟩
      obtain ⟨standsFirst, standsBelow⟩ := along_append.1 stands
      rw [← fills.length_eq] at standsBelow
      exact .cons (written_own standsFirst) (named written standsBelow)

theorem variantBlocks_lays {parent next : ElementId} :
    ∀ {variants : List (List Definition)} {laidVariants : List (List ElementId)} {block : Block},
      variantBlocks scope parent next variants = .ok (laidVariants, block) →
        Lays scope.vocabulary next (Definition.preorderVariants variants) block ∧
          (∀ variant ∈ variants, ∀ part ∈ variant, part.isPart = true) ∧
          ∀ written, Written written next (Definition.preorderVariants variants) →
            List.Forall₂ (List.Forall₂ fun part id => written id = some part) variants laidVariants
  | [], laidVariants, block, laid => by
      obtain ⟨rfl, rfl⟩ := variantBlocks_nil_eq_ok.1 laid
      rw [Definition.preorderVariants]
      exact ⟨.nil, by simp, fun _ _ => .nil⟩
  | variant :: rest, laidVariants, block, laid => by
      obtain ⟨parts, first, laidFirst, others, below, laidBelow, rfl, rfl⟩ :=
        variantBlocks_cons_eq_ok.1 laid
      obtain ⟨fills, areParts, named⟩ := partBlocks_lays laidFirst
      obtain ⟨lays, othersAreParts, othersNamed⟩ := variantBlocks_lays laidBelow
      rw [Definition.preorderVariants]
      refine ⟨fills.append lays, List.forall_mem_cons.2 ⟨areParts, othersAreParts⟩,
        fun written stands => ?_⟩
      obtain ⟨standsFirst, standsBelow⟩ := along_append.1 stands
      rw [← fills.length_eq] at standsBelow
      exact .cons (named written standsFirst) (othersNamed written standsBelow)

end

/-! ### Room for a block -/

theorem token_fits {parent : Option ElementId} {id : Nat} {type : String} {text : Option String}
    {flavor : Option Category} (laid : token scope parent id type text flavor = .ok block) :
    id + block.length ≤ Supply.elements.capacity := by
  have only := (token_lays laid).length_eq
  obtain ⟨inside, -⟩ := token_eq_ok.1 laid
  rw [List.length_singleton] at only
  omega

mutual

/-- **There are ids for what has been laid out.** -/
theorem block_fits {parent : Option ElementId} {id : Nat} :
    ∀ {definition : Definition} {block : Block},
      Layout.block scope parent id definition = .ok block →
        id + block.length ≤ Supply.elements.capacity
  | .token type text flavor, block, laid => by
      rw [Layout.block] at laid
      exact token_fits laid
  | .identifier use isAlias object, block, laid => by
      obtain ⟨inside, rfl⟩ := block_identifier_eq_ok.1 laid
      exact inside
  | .sequence slots, block, laid => by
      obtain ⟨inside, -, laidSlots, below, laidBelow, rfl⟩ := block_sequence_eq_ok.1 laid
      have fits := slotBlocks_fits inside laidBelow
      rw [List.length_cons]
      omega
  | .wrapper opening ⟨content, optional, since⟩ closing repeated, block, laid => by
      obtain ⟨-, first, -, middle, -, last, laidLast, rfl⟩ := block_wrapper_eq_ok.1 laid
      -- The last id of the block was issued for its last delimiter, so nothing before needs a look.
      have fits := token_fits laidLast
      simp only [List.length_cons, List.length_append]
      omega
  | .oneOf alternatives sortable, block, laid => by
      obtain ⟨inside, -, laidSlots, below, laidBelow, rfl⟩ := block_oneOf_eq_ok.1 laid
      have fits := slotBlocks_fits inside laidBelow
      rw [List.length_cons]
      omega
  | .iteration item none, block, laid => by
      obtain ⟨-, below, laidBelow, rfl⟩ := block_iteration_eq_ok.1 laid
      have fits := block_fits laidBelow
      rw [List.length_cons]
      omega
  | .iteration item (some separator), block, laid => by
      obtain ⟨-, below, -, last, laidLast, rfl⟩ := block_separated_eq_ok.1 laid
      have fits := token_fits laidLast
      simp only [List.length_cons, List.length_append]
      omega
  | .qualified variants separator, block, laid => by
      obtain ⟨-, -, laidVariants, below, -, last, laidLast, rfl⟩ := block_qualified_eq_ok.1 laid
      have fits := token_fits laidLast
      simp only [List.length_cons, List.length_append]
      omega
  | .reference rule, block, laid => by
      obtain ⟨inside, -, rfl⟩ := block_reference_eq_ok.1 laid
      exact inside

theorem slotBlocks_fits {parent next : Nat} (room : next ≤ Supply.elements.capacity) :
    ∀ {slots : List (Slot Definition)} {laidSlots : List (Slot ElementId)} {block : Block},
      slotBlocks scope parent next slots = .ok (laidSlots, block) →
        next + block.length ≤ Supply.elements.capacity
  | [], laidSlots, block, laid => by
      obtain ⟨rfl, rfl⟩ := slotBlocks_nil_eq_ok.1 laid
      exact room
  | ⟨item, optional, since⟩ :: rest, laidSlots, block, laid => by
      obtain ⟨first, laidFirst, others, below, laidBelow, rfl, rfl⟩ := slotBlocks_cons_eq_ok.1 laid
      have fits := slotBlocks_fits (block_fits laidFirst) laidBelow
      rw [List.length_append]
      omega

end

omit [Alphabet] in
theorem exists_token (parent : Option ElementId) (id : Nat) (text : Option String)
    (flavor : Option Category) {type : String} (inside : id < Supply.elements.capacity)
    (declared : scope.vocabulary.Declares type) :
    ∃ block, token scope parent id type text flavor = .ok block := by
  obtain ⟨known, resolved⟩ := Vocabulary.declares_iff.1 declared
  exact ⟨_, token_eq_ok.2 ⟨inside, known, resolved, rfl⟩⟩

mutual

/-- **Sound definitions are laid out** as long as there are ids. -/
theorem exists_block (parent : Option ElementId) (id : Nat) :
    ∀ {definition : Definition}, (∀ part ∈ definition.preorder, Layable scope.vocabulary part) →
      id + definition.preorder.length ≤ Supply.elements.capacity →
        ∃ block, Layout.block scope parent id definition = .ok block
  | .token type text flavor, sound, room => by
      rw [Definition.preorder] at sound room
      rw [Layout.block]
      exact exists_token _ _ _ _ room (sound _ List.mem_cons_self)
  | .identifier use isAlias object, sound, room => by
      rw [Definition.preorder] at room
      exact ⟨_, block_identifier_eq_ok.2 ⟨room, rfl⟩⟩
  | .sequence slots, sound, room => by
      rw [Definition.preorder, List.length_cons] at room
      rw [Definition.preorder, List.forall_mem_cons] at sound
      obtain ⟨⟨laidSlots, below⟩, laidBelow⟩ :=
        exists_slotBlocks id (id + 1) sound.2 (by omega)
      have nonempty : ¬ slots.isEmpty = true := by simpa [Definition.Sound] using sound.1
      exact ⟨_, block_sequence_eq_ok.2 ⟨by omega, nonempty, _, _, laidBelow, rfl⟩⟩
  | .wrapper opening ⟨content, optional, since⟩ closing repeated, sound, room => by
      simp only [Definition.preorder, List.length_cons, List.length_append, List.length_nil] at room
      rw [Definition.preorder, List.forall_mem_cons] at sound
      obtain ⟨⟨opens, closes⟩, sound⟩ := sound
      -- What is sound of all definitions in the preorder is so of those of the content.
      have soundContent : ∀ part ∈ content.preorder, Layable scope.vocabulary part := by
        intro part member
        apply sound
        simp [member]
      obtain ⟨first, laidFirst⟩ := exists_token (some id) (id + 1) none none (by omega) opens
      have length_first := (token_lays laidFirst).length_eq
      rw [List.length_singleton] at length_first
      obtain ⟨middle, laidMiddle⟩ :=
        exists_block (some id) (id + 1 + first.length) soundContent (by omega)
      have length_middle := (block_lays laidMiddle).length_eq
      obtain ⟨last, laidLast⟩ := exists_token (some id) (id + 1 + first.length + middle.length) none none
        (by omega) closes
      exact ⟨_, block_wrapper_eq_ok.2
        ⟨by omega, first, laidFirst, middle, laidMiddle, last, laidLast, rfl⟩⟩
  | .oneOf alternatives sortable, sound, room => by
      rw [Definition.preorder, List.length_cons] at room
      rw [Definition.preorder, List.forall_mem_cons] at sound
      obtain ⟨⟨laidSlots, below⟩, laidBelow⟩ :=
        exists_slotBlocks id (id + 1) sound.2 (by omega)
      have nonempty : ¬ alternatives.isEmpty = true := by simpa [Definition.Sound] using sound.1
      exact ⟨_, block_oneOf_eq_ok.2 ⟨by omega, nonempty, _, _, laidBelow, rfl⟩⟩
  | .iteration item none, sound, room => by
      rw [Definition.preorder, List.length_cons] at room
      rw [Definition.preorder, List.forall_mem_cons] at sound
      obtain ⟨below, laidBelow⟩ := exists_block (some id) (id + 1) sound.2 (by omega)
      exact ⟨_, block_iteration_eq_ok.2 ⟨by omega, below, laidBelow, rfl⟩⟩
  | .iteration item (some separator), sound, room => by
      simp only [Definition.preorder, List.length_cons, List.length_append, List.length_nil] at room
      rw [Definition.preorder, List.forall_mem_cons] at sound
      obtain ⟨separates, sound⟩ := sound
      have soundItem : ∀ part ∈ item.preorder, Layable scope.vocabulary part := by
        intro part member
        apply sound
        simp [member]
      obtain ⟨below, laidBelow⟩ := exists_block (some id) (id + 1) soundItem (by omega)
      have length_below := (block_lays laidBelow).length_eq
      obtain ⟨last, laidLast⟩ := exists_token (some id) (id + 1 + below.length) none none
        (by omega) (separates separator rfl)
      exact ⟨_, block_separated_eq_ok.2 ⟨by omega, below, laidBelow, last, laidLast, rfl⟩⟩
  | .qualified variants separator, sound, room => by
      simp only [Definition.preorder, List.length_cons, List.length_append, List.length_nil] at room
      rw [Definition.preorder, List.forall_mem_cons] at sound
      obtain ⟨⟨nonempty, filled, separates⟩, sound⟩ := sound
      have soundVariants : ∀ part ∈ Definition.preorderVariants variants,
          Layable scope.vocabulary part := by
        intro part member
        apply sound
        simp [member]
      obtain ⟨⟨laidVariants, below⟩, laidBelow⟩ := exists_variantBlocks id (id + 1) soundVariants
        (fun variant member => (filled variant member).2) (by omega)
      have length_below := (variantBlocks_lays laidBelow).1.length_eq
      obtain ⟨last, laidLast⟩ := exists_token (some id) (id + 1 + below.length) none none
        (by omega) separates
      have allFilled : ¬ (variants.isEmpty || variants.any List.isEmpty) = true := by
        simp only [Bool.or_eq_true, List.isEmpty_iff, List.any_eq_true, not_or, not_exists, not_and]
        exact ⟨nonempty, fun variant member => (filled variant member).1⟩
      exact ⟨_, block_qualified_eq_ok.2
        ⟨by omega, allFilled, laidVariants, below, laidBelow, last, laidLast, rfl⟩⟩
  | .reference rule, sound, room => by
      rw [Definition.preorder] at sound room
      have valid : Name.isValid rule = true := sound _ List.mem_cons_self
      exact ⟨_, block_reference_eq_ok.2 ⟨room, by simp [valid], rfl⟩⟩

theorem exists_slotBlocks (parent : ElementId) (next : Nat) :
    ∀ {slots : List (Slot Definition)},
      (∀ part ∈ Definition.preorderSlots slots, Layable scope.vocabulary part) →
        next + (Definition.preorderSlots slots).length ≤ Supply.elements.capacity →
          ∃ laid, slotBlocks scope parent next slots = .ok laid
  | [], _, _ => by
      rw [slotBlocks]
      exact ⟨_, rfl⟩
  | ⟨item, optional, since⟩ :: rest, sound, room => by
      rw [Definition.preorderSlots, List.length_append] at room
      rw [Definition.preorderSlots, List.forall_mem_append] at sound
      obtain ⟨first, laidFirst⟩ := exists_block (some parent) next sound.1 (by omega)
      have length_first := (block_lays laidFirst).length_eq
      obtain ⟨⟨others, below⟩, laidBelow⟩ :=
        exists_slotBlocks parent (next + first.length) sound.2 (by omega)
      exact ⟨_, slotBlocks_cons_eq_ok.2 ⟨first, laidFirst, others, below, laidBelow, rfl, rfl⟩⟩

theorem exists_partBlocks (parent : ElementId) (next : Nat) :
    ∀ {variant : List Definition},
      (∀ part ∈ Definition.preorderParts variant, Layable scope.vocabulary part) →
        (∀ part ∈ variant, part.isPart = true) →
          next + (Definition.preorderParts variant).length ≤ Supply.elements.capacity →
            ∃ laid, partBlocks scope parent next variant = .ok laid
  | [], _, _, _ => by
      rw [partBlocks]
      exact ⟨_, rfl⟩
  | part :: rest, sound, areParts, room => by
      rw [Definition.preorderParts, List.length_append] at room
      rw [Definition.preorderParts, List.forall_mem_append] at sound
      rw [List.forall_mem_cons] at areParts
      obtain ⟨first, laidFirst⟩ := exists_block (some parent) next sound.1 (by omega)
      have length_first := (block_lays laidFirst).length_eq
      obtain ⟨⟨others, below⟩, laidBelow⟩ :=
        exists_partBlocks parent (next + first.length) sound.2 areParts.2 (by omega)
      exact ⟨_, partBlocks_cons_eq_ok.2
        ⟨by simp [areParts.1], first, laidFirst, others, below, laidBelow, rfl, rfl⟩⟩

theorem exists_variantBlocks (parent : ElementId) (next : Nat) :
    ∀ {variants : List (List Definition)},
      (∀ part ∈ Definition.preorderVariants variants, Layable scope.vocabulary part) →
        (∀ variant ∈ variants, ∀ part ∈ variant, part.isPart = true) →
          next + (Definition.preorderVariants variants).length ≤ Supply.elements.capacity →
            ∃ laid, variantBlocks scope parent next variants = .ok laid
  | [], _, _, _ => by
      rw [variantBlocks]
      exact ⟨_, rfl⟩
  | variant :: rest, sound, areParts, room => by
      rw [Definition.preorderVariants, List.length_append] at room
      rw [Definition.preorderVariants, List.forall_mem_append] at sound
      rw [List.forall_mem_cons] at areParts
      obtain ⟨⟨parts, first⟩, laidFirst⟩ := exists_partBlocks parent next sound.1 areParts.1 (by omega)
      have length_first := (partBlocks_lays laidFirst).1.length_eq
      obtain ⟨⟨others, below⟩, laidBelow⟩ :=
        exists_variantBlocks parent (next + first.length) sound.2 areParts.2 (by omega)
      exact ⟨_, variantBlocks_cons_eq_ok.2
        ⟨parts, first, laidFirst, others, below, laidBelow, rfl, rfl⟩⟩

end

end Blocks

end Layout

end Dialect
