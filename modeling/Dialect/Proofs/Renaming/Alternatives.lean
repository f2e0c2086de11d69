import Dialect.Proofs.Renaming.Blocks
import Dialect.Proofs.Renaming.Places

/-!
# A choice with its alternatives in another order

One choice somewhere in a definition gets its alternatives in another order
(`Definition.Permutes`).  Both definitions are laid out alike: there is a renaming of ids that
moves nothing but what is in the alternatives, and under which the elements of the second block
are the images of those of the first (`permutes_come`).
-/

set_option autoImplicit false

namespace Dialect

namespace Definition

/-- The second definition is the first with the alternatives of one choice in another order.
The choice is the one at the given place in the preorder. -/
inductive Permutes : (place : Nat) → Definition → Definition → Prop
  | here {alternatives order : List (Slot Definition)} {sortable : Bool}
      (perm : alternatives.Perm order) :
      Permutes 0 (.oneOf alternatives sortable) (.oneOf order sortable)
  | sequence {before after : List (Slot Definition)} {slot : Slot Definition} {place item'}
      (inside : Permutes place slot.item item') :
      Permutes (1 + (preorderSlots before).length + place) (.sequence (before ++ slot :: after))
        (.sequence (before ++ slot.replace item' :: after))
  | oneOf {before after : List (Slot Definition)} {slot : Slot Definition} {sortable place item'}
      (inside : Permutes place slot.item item') :
      Permutes (1 + (preorderSlots before).length + place)
        (.oneOf (before ++ slot :: after) sortable)
        (.oneOf (before ++ slot.replace item' :: after) sortable)
  | wrapper {opening closing : String} {content : Slot Definition} {repeated place item'}
      (inside : Permutes place content.item item') :
      Permutes (2 + place) (.wrapper opening content closing repeated)
        (.wrapper opening (content.replace item') closing repeated)
  | iteration {item item' : Definition} {separator place} (inside : Permutes place item item') :
      Permutes (1 + place) (.iteration item separator) (.iteration item' separator)

/-- How many elements a slot has. -/
def slotWidth (slot : Slot Definition) : Nat := slot.item.preorder.length

theorem preorderSlots_length (slots : List (Slot Definition)) :
    (preorderSlots slots).length = extent slotWidth slots := by
  induction slots with
  | nil => rfl
  | cons slot rest ih =>
      obtain ⟨item, optional, since⟩ := slot
      rw [preorderSlots, List.length_append, ih, extent_cons]
      rfl

theorem mem_preorderSlots {slots : List (Slot Definition)} {part : Definition} :
    part ∈ preorderSlots slots ↔ ∃ slot ∈ slots, part ∈ slot.item.preorder := by
  induction slots with
  | nil => simp [preorderSlots]
  | cons slot rest ih =>
      obtain ⟨item, optional, since⟩ := slot
      rw [preorderSlots, List.mem_append, ih]
      simp

theorem preorderSlots_append (before after : List (Slot Definition)) :
    preorderSlots (before ++ after) = preorderSlots before ++ preorderSlots after := by
  induction before with
  | nil => rfl
  | cons slot rest ih =>
      obtain ⟨item, optional, since⟩ := slot
      rw [List.cons_append, preorderSlots, preorderSlots, ih, List.append_assoc]

/-- What stands in the block of a slot. -/
theorem getElem?_preorderSlots {before after : List (Slot Definition)} {slot : Slot Definition}
    {place : Nat} {part : Definition} (found : slot.item.preorder[place]? = some part) :
    (preorderSlots (before ++ slot :: after))[(preorderSlots before).length + place]? = some part := by
  obtain ⟨item, optional, since⟩ := slot
  rw [preorderSlots_append, List.getElem?_append_right (Nat.le_add_right _ _),
    Nat.add_sub_cancel_left, preorderSlots,
    List.getElem?_append_left (List.getElem?_eq_some_iff.1 found).1, found]

/-- A slot that is filled with something as long leaves as many definitions. -/
theorem preorderSlots_length_replace {before after : List (Slot Definition)}
    {slot : Slot Definition} {item' : Definition}
    (same : item'.preorder.length = slot.item.preorder.length) :
    (preorderSlots (before ++ slot.replace item' :: after)).length =
      (preorderSlots (before ++ slot :: after)).length := by
  rw [preorderSlots_length, preorderSlots_length, extent_append, extent_append, extent_cons,
    extent_cons]
  exact congrArg (fun width => _ + (width + _)) same

/-- What holds of all definitions still does when a slot is filled with others of which it holds. -/
theorem forall_preorderSlots_replace {holds : Definition → Prop}
    {before after : List (Slot Definition)} {slot : Slot Definition} {item' : Definition}
    (kept : (∀ part ∈ slot.item.preorder, holds part) → ∀ part ∈ item'.preorder, holds part)
    (all : ∀ part ∈ preorderSlots (before ++ slot :: after), holds part) :
    ∀ part ∈ preorderSlots (before ++ slot.replace item' :: after), holds part := by
  intro part member
  obtain ⟨other, listed, inside⟩ := mem_preorderSlots.1 member
  have within : ∀ known ∈ before ++ slot :: after, ∀ part ∈ known.item.preorder, holds part :=
    fun known listed part inside => all part (mem_preorderSlots.2 ⟨known, listed, inside⟩)
  rcases List.mem_append.1 listed with earlier | later
  · exact within other (List.mem_append_left _ earlier) part inside
  · rcases List.mem_cons.1 later with rfl | behind
    · exact kept (within slot (by simp)) part inside
    · exact within other (by simp [behind]) part inside

/-- What is permuted is a choice. -/
theorem Permutes.exists_choice {place : Nat} {definition definition' : Definition}
    (permutes : Permutes place definition definition') :
    ∃ alternatives sortable, definition.preorder[place]? = some (.oneOf alternatives sortable) := by
  induction permutes with
  | here perm => exact ⟨_, _, by rw [preorder]; rfl⟩
  | sequence inside ih =>
      obtain ⟨alternatives, sortable, found⟩ := ih
      refine ⟨alternatives, sortable, ?_⟩
      rw [preorder, Nat.add_assoc, Nat.add_comm 1, List.getElem?_cons_succ]
      exact getElem?_preorderSlots found
  | oneOf inside ih =>
      obtain ⟨alternatives, sortable, found⟩ := ih
      refine ⟨alternatives, sortable, ?_⟩
      rw [preorder, Nat.add_assoc, Nat.add_comm 1, List.getElem?_cons_succ]
      exact getElem?_preorderSlots found
  -- The opening delimiter stands between a wrapper and its content.
  | @wrapper opening closing content repeated place item' inside ih =>
      obtain ⟨item, optional, since⟩ := content
      obtain ⟨alternatives, sortable, found⟩ := ih
      refine ⟨alternatives, sortable, ?_⟩
      rw [preorder, Nat.add_comm 2]
      simpa [List.getElem?_append_left (List.getElem?_eq_some_iff.1 found).1] using found
  | @iteration item item' separator place inside ih =>
      obtain ⟨alternatives, sortable, found⟩ := ih
      refine ⟨alternatives, sortable, ?_⟩
      rw [Nat.add_comm 1]
      cases separator with
      | none => rwa [preorder, List.getElem?_cons_succ]
      | some separator =>
          rw [preorder, List.getElem?_cons_succ,
            List.getElem?_append_left (List.getElem?_eq_some_iff.1 found).1, found]

/-- Definitions with as many elements. -/
theorem Permutes.length_eq {place : Nat} {definition definition' : Definition}
    (permutes : Permutes place definition definition') :
    definition'.preorder.length = definition.preorder.length := by
  induction permutes with
  | here perm =>
      rw [preorder, preorder, List.length_cons, List.length_cons, preorderSlots_length,
        preorderSlots_length, extent_perm perm]
  | sequence inside ih =>
      rw [preorder, preorder, List.length_cons, List.length_cons, preorderSlots_length_replace ih]
  | oneOf inside ih =>
      rw [preorder, preorder, List.length_cons, List.length_cons, preorderSlots_length_replace ih]
  | @wrapper opening closing content repeated place item' inside ih =>
      obtain ⟨item, optional, since⟩ := content
      simp only [Slot.replace, preorder, List.length_cons, List.length_append, ih]
  | @iteration item item' separator place inside ih =>
      cases separator with
      | none => rw [preorder, preorder, List.length_cons, List.length_cons, ih]
      | some separator => simp only [preorder, List.length_cons, List.length_append, ih]

/-- **What is sound stays sound.** -/
theorem Permutes.sound {isType isRule : String → Prop} {place : Nat}
    {definition definition' : Definition} (permutes : Permutes place definition definition')
    (sound : ∀ part ∈ definition.preorder, part.Sound isType isRule) :
    ∀ part ∈ definition'.preorder, part.Sound isType isRule := by
  induction permutes with
  | here perm =>
      rw [preorder, List.forall_mem_cons] at sound ⊢
      refine ⟨fun none => sound.1 (none ▸ perm).eq_nil, fun part member => ?_⟩
      obtain ⟨slot, listed, inside⟩ := mem_preorderSlots.1 member
      exact sound.2 part (mem_preorderSlots.2 ⟨slot, perm.mem_iff.2 listed, inside⟩)
  | sequence inside ih =>
      rw [preorder, List.forall_mem_cons] at sound ⊢
      exact ⟨by simp [Sound], forall_preorderSlots_replace ih sound.2⟩
  | oneOf inside ih =>
      rw [preorder, List.forall_mem_cons] at sound ⊢
      exact ⟨by simp [Sound], forall_preorderSlots_replace ih sound.2⟩
  | @wrapper opening closing content repeated place item' inside ih =>
      obtain ⟨item, optional, since⟩ := content
      simp only [Slot.replace, preorder, List.forall_mem_cons, List.forall_mem_append] at sound ⊢
      exact ⟨sound.1, ⟨sound.2.1.1, ih sound.2.1.2⟩, sound.2.2⟩
  | @iteration item item' separator place inside ih =>
      cases separator with
      | none =>
          simp only [preorder, List.forall_mem_cons] at sound ⊢
          exact ⟨sound.1, ih sound.2⟩
      | some separator =>
          simp only [preorder, List.forall_mem_cons, List.forall_mem_append] at sound ⊢
          exact ⟨sound.1, ih sound.2.1, sound.2.2⟩

end Definition

namespace Layout

/-! ### What becomes of blocks -/

/-- The elements of the block stand one after the other from the id on. -/
abbrev Stands (look : ElementId → Option (Element Mention)) : ElementId → Block → Prop :=
  Along fun id element => look id = some element

/-- What becomes of an element: its image stands in its new place, and only in the choice that
was reordered the parts are not merely renamed. -/
def Becomes (σ : ElementId → ElementId) (choice : ElementId)
    (look : ElementId → Option (Element Mention)) (id : ElementId) (element : Element Mention) :
    Prop :=
  ∃ image, look (σ id) = some image ∧ image.rule = element.rule ∧
    element.kind.Follows σ (fun mention => mention) image.kind ∧
    (id ≠ choice → image.kind = element.kind.rename σ fun mention => mention)

/-- An element of the same rule with the parts renamed. -/
def Relocated (σ : ElementId → ElementId) (element image : Element Mention) : Prop :=
  image.rule = element.rule ∧ image.kind = element.kind.rename σ fun mention => mention

section Becomes

variable {scope : Scope} {σ : Nat → Nat} {choice id start start' : Nat}
  {look : ElementId → Option (Element Mention)} {block block' : Block}

/-- Elements that have only been relocated. -/
theorem becomes_of_relocated (relocated : List.Forall₂ (Relocated σ) block block')
    (stands : Stands look start' block') (slides : ∀ j < block.length, σ (start + j) = start' + j) :
    Along (Becomes σ choice look) start block := by
  refine along_iff.2 fun k element found => ?_
  obtain ⟨inside, rfl⟩ := List.getElem?_eq_some_iff.1 found
  have inside' : k < block'.length := relocated.length_eq ▸ inside
  obtain ⟨rule, kind⟩ := List.Forall₂.get relocated inside inside'
  have there := along_iff.1 stands k _ (List.getElem?_eq_getElem inside')
  refine ⟨block'[k], (slides k inside).symm ▸ there, rule, ?_, fun _ => kind⟩
  have kind : block'[k].kind = block[k].kind.rename σ fun mention => mention := kind
  rw [kind]
  exact .renamed _

/-- An element that has kept its place. -/
theorem becomes_own {parent : Option ElementId} {kind kind' : Kind Mention} (fixed : σ id = id)
    (stands : look id = some (element scope parent id kind'))
    (follows : kind.Follows σ (fun mention => mention) kind')
    (exactly : id ≠ choice → kind' = kind.rename σ fun mention => mention) :
    Becomes σ choice look id (element scope parent id kind) := by
  refine ⟨_, (congrArg look fixed).trans stands, ?_, ?_, ?_⟩
  · unfold element
    by_cases first : id = scope.root
    · rw [if_pos first, if_pos first]
    · rw [if_neg first, if_neg first]
  · rw [element_kind, element_kind]
    exact follows
  · rw [element_kind, element_kind]
    exact exactly

/-- Behind the root of a rule elements are relocated when their ids are moved along. -/
theorem carries_relocated {low low' high : Nat}
    (slides : ∀ id : Nat, low ≤ id → id < high → σ id = low' + (id - low)) (behind : scope.root < low)
    (behind' : scope.root < low') : Carries scope scope σ low low' high (Relocated σ) := by
  refine ⟨rfl, rfl, slides, fun parent id kind from_ before => ⟨?_, ?_⟩⟩
  · have moved := slides id from_ before
    have root_lt : scope.root < σ id :=
      moved.symm ▸ Nat.lt_of_lt_of_le behind' (Nat.le_add_right _ _)
    have other : id ≠ scope.root := Nat.ne_of_gt (Nat.lt_of_lt_of_le behind from_)
    have other' : σ id ≠ scope.root := Nat.ne_of_gt root_lt
    unfold element
    rw [if_neg other, if_neg other']
  · rw [element_kind, element_kind]

/-- Elements are relocated when they stay where they are. -/
theorem carries_fixed {low high : Nat} (fixed : ∀ id : Nat, low ≤ id → id < high → σ id = id) :
    Carries scope scope σ low low high (Relocated σ) := by
  refine ⟨rfl, rfl, fun id from_ before => ?_, fun parent id kind from_ before => ⟨?_, ?_⟩⟩
  · exact (fixed id from_ before).trans (Nat.add_sub_cancel' from_).symm
  · have kept : σ id = id := fixed id from_ before
    rw [kept]
    unfold element
    split <;> rfl
  · rw [element_kind, element_kind]

/-- A definition that is laid out where it was before. -/
theorem block_becomes [Alphabet] {parent : Option ElementId} {definition : Definition}
    (laid : Layout.block scope parent start definition = .ok block) (kept : parent.map σ = parent)
    (fixed : ∀ id : Nat, start ≤ id → id < start + block.length → σ id = id)
    (stands : Stands look start block) : Along (Becomes σ choice look) start block := by
  have carried := block_carried (carries_fixed fixed) laid laid kept.symm (Nat.le_refl _)
    (by omega) (Nat.le_refl _)
  exact becomes_of_relocated carried stands fun j inside => fixed _ (by omega) (by omega)

/-- A block below the parent becomes itself wherever its ids are kept. -/
def Settled (parent start : Nat) (block : Block) : Prop :=
  ∀ (σ : Equiv.Perm Nat) (choice : Nat) (look : ElementId → Option (Element Mention)),
    σ parent = parent → (∀ id, start ≤ id → id < start + block.length → σ id = id) →
      Stands look start block → Along (Becomes σ choice look) start block

theorem settled_nil (parent start : Nat) : Settled parent start [] := fun _ _ _ _ _ _ => trivial

theorem delimiter_settled {parent : ElementId} {type : String}
    (laid : delimiter scope parent start type = .ok block) : Settled parent start block := by
  intro σ choice look kept fixed stands
  have carried := delimiter_carried (carries_fixed fixed) laid laid kept.symm (Nat.le_refl _)
    (by omega) (Nat.le_refl _)
  exact becomes_of_relocated carried stands fun j inside => fixed _ (by omega) (by omega)

theorem slotBlocks_settled [Alphabet] {parent : ElementId} {slots : List (Slot Definition)}
    {laidSlots : List (Slot ElementId)}
    (laid : slotBlocks scope parent start slots = .ok (laidSlots, block)) :
    Settled parent start block := by
  intro σ choice look kept fixed stands
  obtain ⟨-, carried⟩ := slotBlocks_carried (carries_fixed fixed) laid laid kept.symm (Nat.le_refl _)
    (by omega) (Nat.le_refl _)
  exact becomes_of_relocated carried stands fun j inside => fixed _ (by omega) (by omega)

/-- Slots whose items keep their ids. -/
theorem slots_kept [Alphabet] {parent : ElementId} {slots : List (Slot Definition)}
    {laidSlots : List (Slot ElementId)}
    (laid : slotBlocks scope parent start slots = .ok (laidSlots, block))
    (fixed : ∀ id : Nat, start ≤ id → id < start + block.length → σ id = id) :
    laidSlots.map (Slot.rename σ) = laidSlots := by
  induction slots generalizing start block laidSlots with
  | nil =>
      obtain ⟨rfl, rfl⟩ := slotBlocks_nil_eq_ok.1 laid
      rfl
  | cons slot rest ih =>
      obtain ⟨item, optional, since⟩ := slot
      obtain ⟨first, laidFirst, others, behind, laidBehind, rfl, rfl⟩ :=
        slotBlocks_cons_eq_ok.1 laid
      have full := block_pos laidFirst
      rw [List.length_append] at fixed
      have own : σ start = start := fixed start (Nat.le_refl _) (by omega)
      rw [List.map_cons, ih laidBehind fun id from_ before => fixed id (by omega) (by omega)]
      exact congrArg (fun at_ => (⟨at_, optional, since⟩ : Slot ElementId) :: others) own

end Becomes

/-! ### Slots one after the other -/

section Slots

variable [Alphabet] {scope : Scope} {parent next : ElementId}
  {slots before after : List (Slot Definition)}
  {laidSlots : List (Slot ElementId)} {below : Block}

theorem slotBlocks_append
    (laid : slotBlocks scope parent next (before ++ after) = .ok (laidSlots, below)) :
    ∃ laidBefore first laidAfter second,
      slotBlocks scope parent next before = .ok (laidBefore, first) ∧
      slotBlocks scope parent (next + first.length) after = .ok (laidAfter, second) ∧
      laidSlots = laidBefore ++ laidAfter ∧ below = first ++ second := by
  induction before generalizing next laidSlots below with
  | nil => exact ⟨[], [], laidSlots, below, by rw [slotBlocks]; rfl, laid, rfl, rfl⟩
  | cons slot rest ih =>
      obtain ⟨item, optional, since⟩ := slot
      rw [List.cons_append] at laid
      obtain ⟨block, laidBlock, others, behind, laidBehind, rfl, rfl⟩ :=
        slotBlocks_cons_eq_ok.1 laid
      obtain ⟨laidBefore, first, laidAfter, second, laidFirst, laidSecond, rfl, rfl⟩ := ih laidBehind
      refine ⟨_ :: laidBefore, block ++ first, laidAfter, second, ?_, ?_, rfl, ?_⟩
      · rw [slotBlocks]
        exact bind_eq_ok.2 ⟨block, laidBlock, bind_eq_ok.2 ⟨_, laidFirst, rfl⟩⟩
      · rwa [List.length_append, ← Nat.add_assoc]
      · rw [List.append_assoc]

/-- What is laid out before a slot, for it and after it. -/
theorem slotBlocks_around {slot : Slot Definition}
    (laid : slotBlocks scope parent next (before ++ slot :: after) = .ok (laidSlots, below)) :
    ∃ first ahead inner last behind,
      slotBlocks scope parent next before = .ok (first, ahead) ∧
      Layout.block scope (some parent) (next + ahead.length) slot.item = .ok inner ∧
      slotBlocks scope parent (next + ahead.length + inner.length) after = .ok (last, behind) ∧
      laidSlots = first ++ slot.replace (next + ahead.length) :: last ∧
      below = ahead ++ inner ++ behind := by
  obtain ⟨item, optional, since⟩ := slot
  obtain ⟨first, ahead, _, _, laidFirst, laidRest, rfl, rfl⟩ := slotBlocks_append laid
  obtain ⟨inner, laidInner, last, behind, laidLast, rfl, rfl⟩ := slotBlocks_cons_eq_ok.1 laidRest
  exact ⟨first, ahead, inner, last, behind, laidFirst, laidInner, laidLast, rfl,
    (List.append_assoc ..).symm⟩

/-- Slots are laid out one behind the other. -/
theorem slotBlocks_places (laid : slotBlocks scope parent next slots = .ok (laidSlots, below)) :
    laidSlots = (places Definition.slotWidth next slots).map (fun place => place.2.replace place.1) ∧
      ∀ place ∈ places Definition.slotWidth next slots, ∃ block,
        Layout.block scope (some parent) place.1 place.2.item = .ok block ∧
          ∀ look, Stands look next below → Stands look place.1 block := by
  induction slots generalizing next laidSlots below with
  | nil =>
      obtain ⟨rfl, rfl⟩ := slotBlocks_nil_eq_ok.1 laid
      exact ⟨rfl, nofun⟩
  | cons slot rest ih =>
      obtain ⟨item, optional, since⟩ := slot
      obtain ⟨first, laidFirst, others, behind, laidBehind, rfl, rfl⟩ :=
        slotBlocks_cons_eq_ok.1 laid
      have wide : first.length = Definition.slotWidth ⟨item, optional, since⟩ :=
        block_length laidFirst
      obtain ⟨rfl, blocks⟩ := ih laidBehind
      rw [places, ← wide]
      refine ⟨rfl, fun place member => ?_⟩
      rcases List.mem_cons.1 member with rfl | later
      · exact ⟨first, laidFirst, fun look stands => (along_append.1 stands).1⟩
      · obtain ⟨block, laidBlock, stand⟩ := blocks place later
        exact ⟨block, laidBlock, fun look stands => stand look (along_append.1 stands).2⟩

/-- What holds of the block of each slot holds of all of them. -/
theorem along_slotBlocks {holds : ElementId → Element Mention → Prop}
    (laid : slotBlocks scope parent next slots = .ok (laidSlots, below))
    (each : ∀ place ∈ places Definition.slotWidth next slots, ∀ block,
      Layout.block scope (some parent) place.1 place.2.item = .ok block →
        Along holds place.1 block) : Along holds next below := by
  induction slots generalizing next laidSlots below with
  | nil =>
      obtain ⟨rfl, rfl⟩ := slotBlocks_nil_eq_ok.1 laid
      trivial
  | cons slot rest ih =>
      obtain ⟨item, optional, since⟩ := slot
      obtain ⟨first, laidFirst, others, behind, laidBehind, rfl, rfl⟩ :=
        slotBlocks_cons_eq_ok.1 laid
      have wide : first.length = Definition.slotWidth ⟨item, optional, since⟩ :=
        block_length laidFirst
      rw [places, ← wide] at each
      refine along_append.2 ⟨each _ List.mem_cons_self first laidFirst, ih laidBehind ?_⟩
      exact fun place member => each place (List.mem_cons_of_mem _ member)

end Slots

/-! ### Permuted definitions -/

section Permutes

variable {scope : Scope} {definition definition' : Definition} {place : Nat}

/-- Alternatives that are the renamed ones in another order. -/
theorem follows_of_perm {σ : Equiv.Perm ElementId} {laid laid' : List (Slot ElementId)}
    (perm : laid'.Perm (laid.map (Slot.rename σ))) (sortable : Bool) :
    (Kind.oneOf laid sortable).Follows σ (fun mention : Mention => mention)
      (.oneOf laid' sortable) := by
  have cancel : ∀ (τ ν : Equiv.Perm ElementId), (∀ id, ν (τ id) = id) →
      ∀ slots : List (Slot ElementId), (slots.map (Slot.rename τ)).map (Slot.rename ν) = slots := by
    intro τ ν inverse slots
    rw [List.map_map]
    refine (List.map_congr_left fun slot _ => ?_).trans (List.map_id _)
    simp only [Function.comp_apply, Slot.rename, Slot.replace, inverse, id_eq]
  have listed : (laid'.map (Slot.rename σ.symm)).Perm laid :=
    (perm.map _).trans (.of_eq (cancel σ σ.symm σ.symm_apply_apply laid))
  rw [← cancel σ.symm σ σ.apply_symm_apply laid']
  exact .reordered listed

/-- The second block comes of the first when nothing but its inside is moved. -/
def Comes (choice id : Nat) (block block' : Block) : Prop :=
  ∃ σ : Equiv.Perm Nat, (∀ i, i ≤ id ∨ id + block.length ≤ i → σ i = i) ∧
    ∀ look, Stands look id block' → Along (Becomes σ choice look) id block

/-- The alternatives of a choice are moved as wholes. -/
theorem alternatives_come [Alphabet] {alternatives order : List (Slot Definition)} {sortable : Bool}
    (perm : alternatives.Perm order) {parent : Option ElementId} {id : Nat} {block block' : Block}
    (rooted : scope.root ≤ id)
    (laid : Layout.block scope parent id (.oneOf alternatives sortable) = .ok block)
    (laid' : Layout.block scope parent id (.oneOf order sortable) = .ok block') :
    Comes id id block block' := by
  obtain ⟨-, -, slots, below, laidBelow, rfl⟩ := block_oneOf_eq_ok.1 laid
  obtain ⟨-, -, slots', below', laidBelow', rfl⟩ := block_oneOf_eq_ok.1 laid'
  obtain ⟨σ, shuffles⟩ := exists_shuffle Definition.slotWidth perm
    (fun slot _ => slot.item.preorder_pos) (id + 1)
  have ⟨around, slides, moved⟩ := shuffles
  have length_eq : below.length = extent Definition.slotWidth alternatives := by
    rw [← Definition.preorderSlots_length]
    exact (slotBlocks_lays laidBelow).1.length_eq
  have own : σ id = id := around id (Or.inl (Nat.lt_succ_self id))
  obtain ⟨rfl, -⟩ := slotBlocks_places laidBelow
  obtain ⟨rfl, blocks'⟩ := slotBlocks_places laidBelow'
  refine ⟨σ, fun i outside => around i ?_, fun look stands => ⟨?_, ?_⟩⟩
  · rw [List.length_cons, length_eq] at outside
    omega
  · refine becomes_own own stands.1 ?_ fun other => absurd rfl other
    refine follows_of_perm ((moved.map _).trans (.of_eq ?_)) sortable
    rw [List.map_map, List.map_map]
    rfl
  · -- Each alternative is moved as a whole, and behind the root of the rule it is only relocated.
    refine along_slotBlocks laidBelow fun place member block laidBlock => ?_
    have there := moved.mem_iff.2 (List.mem_map_of_mem member)
    obtain ⟨block', laidBlock', stand⟩ := blocks' _ there
    have wide : block.length = Definition.slotWidth place.2 := block_length laidBlock
    have bounds := (bounds_of_mem_places member).1
    have bounds' := (bounds_of_mem_places there).1
    dsimp only at bounds' laidBlock' stand
    have carries : Carries scope scope σ place.1 (σ place.1) (place.1 + block.length)
        (Relocated σ) :=
      carries_relocated (fun i behind before => shuffles.slides_from member behind (wide ▸ before))
        (Nat.lt_of_le_of_lt rooted bounds) (Nat.lt_of_le_of_lt rooted bounds')
    have carried := block_carried carries laidBlock laidBlock' (by rw [Option.map_some, own])
      (Nat.le_refl _) (by omega) (Nat.le_refl _)
    exact becomes_of_relocated carried (stand look stands.2) fun j inside =>
      slides place member j (wide ▸ inside)

/-- **The element over a part stays where it is**, and so does what stands around the part, when
nothing but the inside of the part is moved. -/
theorem Comes.within {parent : Option ElementId} {id choice : Nat} {kind : Kind Mention}
    {inner inner' : Block} (ahead behind : Block)
    (comes : Comes choice (id + 1 + ahead.length) inner inner')
    (same : inner'.length = inner.length)
    (front : Settled id (id + 1) ahead)
    (back : Settled id (id + 1 + ahead.length + inner.length) behind)
    (kept : ∀ σ : Equiv.Perm Nat, (∀ i, i ≤ id + 1 + ahead.length ∨
      id + 1 + ahead.length + inner.length ≤ i → σ i = i) →
        kind.rename σ (fun mention => mention) = kind) :
    Comes choice id (element scope parent id kind :: (ahead ++ inner ++ behind))
      (element scope parent id kind :: (ahead ++ inner' ++ behind)) := by
  obtain ⟨σ, around, becomes⟩ := comes
  have own : σ id = id := around id (by omega)
  refine ⟨σ, fun i outside => around i ?_, fun look stands => ⟨?_, ?_⟩⟩
  · simp only [List.length_cons, List.length_append] at outside
    omega
  · have renamed := kept σ around
    have follows : kind.Follows σ (fun mention => mention)
      (kind.rename σ fun mention => mention) := .renamed _
    rw [renamed] at follows
    exact becomes_own own stands.1 follows fun _ => renamed.symm
  · obtain ⟨standsPart, standsBehind⟩ := along_append.1 stands.2
    obtain ⟨standsAhead, standsInner⟩ := along_append.1 standsPart
    simp only [List.length_append, ← Nat.add_assoc, same] at standsBehind
    refine along_append.2 ⟨along_append.2 ⟨?_, becomes look standsInner⟩, ?_⟩
    · exact front σ choice look own (fun i _ before => around i (by omega)) standsAhead
    · rw [List.length_append, ← Nat.add_assoc]
      exact back σ choice look own (fun i behind _ => around i (by omega)) standsBehind

/-- One slot of several is filled with a permuted definition. -/
theorem row_comes [Alphabet] {before after : List (Slot Definition)} {slot : Slot Definition}
    {item' : Definition} (make : List (Slot ElementId) → Kind Mention)
    (renames : ∀ (σ : ElementId → ElementId) slots,
      (make slots).rename σ (fun mention => mention) = make (slots.map (Slot.rename σ)))
    (same : item'.preorder.length = slot.item.preorder.length)
    (inside : ∀ {parent id block block'}, Layout.block scope parent id slot.item = .ok block →
      Layout.block scope parent id item' = .ok block' → scope.root ≤ id →
        Comes (id + place) id block block')
    {parent : Option ElementId} {id : Nat} {laid laid' : List (Slot ElementId)}
    {below below' : Block} (rooted : scope.root ≤ id)
    (laidBelow : slotBlocks scope id (id + 1) (before ++ slot :: after) = .ok (laid, below))
    (laidBelow' : slotBlocks scope id (id + 1) (before ++ slot.replace item' :: after) =
      .ok (laid', below')) :
    Comes (id + (1 + (Definition.preorderSlots before).length + place)) id
      (element scope parent id (make laid) :: below)
      (element scope parent id (make laid') :: below') := by
  obtain ⟨first, ahead, inner, last, behind, laidFirst, laidInner, laidLast, rfl, rfl⟩ :=
    slotBlocks_around laidBelow
  obtain ⟨_, _, inner', last', behind', laidFirst', laidInner', laidLast', rfl, rfl⟩ :=
    slotBlocks_around laidBelow'
  obtain ⟨rfl, rfl⟩ : first = _ ∧ ahead = _ := by simpa using laidFirst.symm.trans laidFirst'
  have wide : inner'.length = inner.length := block_length_eq same laidInner laidInner'
  rw [wide] at laidLast'
  obtain ⟨rfl, rfl⟩ : last = last' ∧ behind = behind' := by
    simpa using laidLast.symm.trans laidLast'
  have wideFirst : ahead.length = (Definition.preorderSlots before).length :=
    (slotBlocks_lays laidFirst).1.length_eq
  rw [show id + (1 + (Definition.preorderSlots before).length + place) =
    id + 1 + ahead.length + place by omega]
  have comes := inside laidInner laidInner' (Nat.le_trans rooted (by omega))
  refine comes.within ahead behind wide (slotBlocks_settled laidFirst) (slotBlocks_settled laidLast)
    fun σ around => ?_
  rw [renames, List.map_append, List.map_cons,
    slots_kept laidFirst fun i _ before => around i (by omega),
    slots_kept laidLast fun i behind _ => around i (by omega)]
  have here : σ (id + 1 + ahead.length) = id + 1 + ahead.length := around _ (by omega)
  exact congrArg (fun at_ => make (first ++ slot.replace at_ :: last)) here

/-- **What becomes of a permuted definition.** -/
theorem permutes_come [Alphabet] (permutes : Definition.Permutes place definition definition') :
    ∀ {parent : Option ElementId} {id : Nat} {block block' : Block},
      Layout.block scope parent id definition = .ok block →
        Layout.block scope parent id definition' = .ok block' → scope.root ≤ id →
          Comes (id + place) id block block' := by
  induction permutes with
  | here perm => exact fun laid laid' rooted => alternatives_come perm rooted laid laid'
  | @sequence before after slot place item' inside ih =>
      intro parent id block block' laid laid' rooted
      obtain ⟨-, -, slots, below, laidBelow, rfl⟩ := block_sequence_eq_ok.1 laid
      obtain ⟨-, -, slots', below', laidBelow', rfl⟩ := block_sequence_eq_ok.1 laid'
      exact row_comes .sequence (fun _ _ => rfl) inside.length_eq ih rooted laidBelow laidBelow'
  | @oneOf before after slot sortable place item' inside ih =>
      intro parent id block block' laid laid' rooted
      obtain ⟨-, -, slots, below, laidBelow, rfl⟩ := block_oneOf_eq_ok.1 laid
      obtain ⟨-, -, slots', below', laidBelow', rfl⟩ := block_oneOf_eq_ok.1 laid'
      exact row_comes (Kind.oneOf · sortable) (fun _ _ => rfl) inside.length_eq ih rooted laidBelow
        laidBelow'
  | @wrapper opening closing content repeated place item' inside ih =>
      obtain ⟨content, optional, since⟩ := content
      intro parent id block block' laid laid' rooted
      simp only [Slot.replace] at laid'
      obtain ⟨-, first, laidFirst, middle, laidMiddle, last, laidLast, rfl⟩ :=
        block_wrapper_eq_ok.1 laid
      obtain ⟨-, first', laidFirst', middle', laidMiddle', last', laidLast', rfl⟩ :=
        block_wrapper_eq_ok.1 laid'
      obtain rfl : first = first' := Except.ok.inj (laidFirst.symm.trans laidFirst')
      have wide : middle'.length = middle.length :=
        block_length_eq inside.length_eq laidMiddle laidMiddle'
      rw [wide] at laidLast' ⊢
      obtain rfl : last = last' := Except.ok.inj (laidLast.symm.trans laidLast')
      have one := delimiter_length laidFirst
      rw [show id + (2 + place) = id + 1 + first.length + place by omega]
      have comes := ih laidMiddle laidMiddle' (Nat.le_trans rooted (by omega))
      refine comes.within first last wide (delimiter_settled laidFirst) (delimiter_settled laidLast)
        fun σ around => ?_
      have opening_eq : σ (id + 1) = id + 1 := around _ (by omega)
      have content_eq : σ (id + 1 + first.length) = id + 1 + first.length := around _ (by omega)
      have closing_eq : σ (id + 1 + first.length + middle.length) =
          id + 1 + first.length + middle.length := around _ (by omega)
      simp only [Kind.rename, Slot.rename, Slot.replace]
      rw [opening_eq, content_eq, closing_eq]
  | @iteration item item' separator place inside ih =>
      intro parent id block block' laid laid' rooted
      rw [← Nat.add_assoc]
      cases separator with
      | none =>
          obtain ⟨-, below, laidBelow, rfl⟩ := block_iteration_eq_ok.1 laid
          obtain ⟨-, below', laidBelow', rfl⟩ := block_iteration_eq_ok.1 laid'
          have wide : below'.length = below.length :=
            block_length_eq inside.length_eq laidBelow laidBelow'
          -- Nothing stands before the item or after it.
          suffices comes : Comes (id + 1 + place) id
              (element scope parent id (.iteration (id + 1) none) :: ([] ++ below ++ []))
              (element scope parent id (.iteration (id + 1) none) :: ([] ++ below' ++ [])) by
            simpa using comes
          refine (ih laidBelow laidBelow' (Nat.le_succ_of_le rooted)).within [] [] wide
            (settled_nil _ _) (settled_nil _ _) fun σ around => ?_
          rw [Kind.rename, Option.map_none, around (id + 1) (by simp)]
      | some separator =>
          obtain ⟨-, below, laidBelow, last, laidLast, rfl⟩ := block_separated_eq_ok.1 laid
          obtain ⟨-, below', laidBelow', last', laidLast', rfl⟩ := block_separated_eq_ok.1 laid'
          have wide : below'.length = below.length :=
            block_length_eq inside.length_eq laidBelow laidBelow'
          rw [wide] at laidLast' ⊢
          obtain rfl : last = last' := Except.ok.inj (laidLast.symm.trans laidLast')
          refine (ih laidBelow laidBelow' (Nat.le_succ_of_le rooted)).within [] last wide
            (settled_nil _ _) (delimiter_settled laidLast) fun σ around => ?_
          have item_eq : σ (id + 1) = id + 1 := around _ (by simp)
          have separator_eq : σ (id + 1 + below.length) = id + 1 + below.length :=
            around _ (by simp)
          rw [Kind.rename, item_eq, Option.map_some, separator_eq]

end Permutes

end Layout

end Dialect
