import Dialect.Proofs.Renaming.Alternatives
import Dialect.Proofs.Renaming.Prediction
import Dialect.Proofs.Renaming.Rules

/-!
# Rules with the alternatives of one choice in another order

Rules of which one has the alternatives of a choice in another order (`Rule.Permutes`) are
accepted if the rules are (`ofRules_accepts_reordered`), and make a grammar that differs in that
choice and in the ids of what is in it only (`ofRules_reordered`).
-/

set_option autoImplicit false

namespace Dialect

open Relation

/-! ### Links -/

section Links

variable {σ : ElementId → ElementId} {ε : Type} {resolve : Mention → Except ε ElementId}
  {kind kind' : Kind Mention} {linked linked' : Kind ElementId}

/-- When what is mentioned keeps its id, a kind that follows another one is linked to one that
follows what the other one is linked to. -/
theorem Kind.Follows.link (fixed : ∀ mention id, resolve mention = .ok id → σ id = id)
    (follows : kind.Follows σ (fun mention => mention) kind')
    (done : kind.link resolve = .ok linked) (done' : kind'.link resolve = .ok linked') :
    linked.Follows σ σ linked' := by
  have resolves : ∀ mention, resolve mention = (resolve mention).map σ := by
    intro mention
    cases found : resolve mention with
    | error _ => rfl
    | ok id => rw [Except.map, fixed mention id found]
  cases follows with
  | renamed =>
      rw [Grammar.kind_link_rename resolves, done] at done'
      obtain rfl := Except.ok.inj done'
      exact .renamed _
  | reordered perm =>
      obtain rfl := Except.ok.inj done
      obtain rfl := Except.ok.inj done'
      exact .reordered perm

end Links

namespace Rule

/-- The second rules are the first with the alternatives of one choice in another order.  The
choice is the one at the given place among the definitions of all elements. -/
inductive Permutes : (place : Nat) → List Rule → List Rule → Prop
  | inside {before after : List Rule} {name : String} {definition definition' : Definition}
      {place : Nat} (permutes : definition.Permutes place definition') :
      Permutes ((preorder before).length + place) (before ++ ⟨name, definition⟩ :: after)
        (before ++ ⟨name, definition'⟩ :: after)

variable {vocabulary : Vocabulary} {rules others : List Rule} {x : Nat}

/-- What is permuted is a choice. -/
theorem Permutes.exists_choice (permutes : Permutes x rules others) :
    ∃ alternatives sortable, (preorder rules)[x]? = some (.oneOf alternatives sortable) := by
  cases permutes with
  | inside permutes =>
      obtain ⟨alternatives, sortable, found⟩ := permutes.exists_choice
      refine ⟨alternatives, sortable, ?_⟩
      rw [preorder, List.flatMap_append, List.flatMap_cons, ← preorder, ← preorder,
        List.getElem?_append_right (Nat.le_add_right _ _), Nat.add_sub_cancel_left,
        List.getElem?_append_left (List.getElem?_eq_some_iff.1 found).1, found]

/-- Rules of the same names. -/
theorem Permutes.names_eq (permutes : Permutes x rules others) :
    others.map Rule.name = rules.map Rule.name := by
  cases permutes with
  | inside permutes => simp

/-- Rules with as many elements. -/
theorem Permutes.length_eq (permutes : Permutes x rules others) :
    (preorder others).length = (preorder rules).length := by
  cases permutes with
  | inside permutes =>
      simp only [preorder, List.flatMap_append, List.flatMap_cons, List.length_append,
        permutes.length_eq]

/-- What is sound stays sound. -/
theorem Permutes.sound {isType isRule : String → Prop} (permutes : Permutes x rules others)
    (sound : ∀ part ∈ preorder rules, part.Sound isType isRule) :
    ∀ part ∈ preorder others, part.Sound isType isRule := by
  cases permutes with
  | inside permutes =>
      simp only [preorder, List.flatMap_append, List.flatMap_cons, List.forall_mem_append] at sound ⊢
      exact ⟨sound.1, permutes.sound sound.2.1, sound.2.2⟩

/-- Names are declared in both. -/
theorem Permutes.declares (permutes : Permutes x rules others) {name : String}
    (declares : Declares rules name) : Declares others name := by
  obtain ⟨rule, member, rfl⟩ := declares
  have known : rule.name ∈ others.map Rule.name :=
    permutes.names_eq ▸ List.mem_map_of_mem member
  obtain ⟨other, member', named⟩ := List.mem_map.1 known
  exact ⟨other, member', named⟩

end Rule

namespace Grammar

variable {vocabulary : Vocabulary} {rules others : List Rule} {x : Nat} {draft draft' : Draft}

/-- The elements that come of the rules in front. -/
theorem extent_ruleWidth (rules : List Rule) : extent ruleWidth rules = (Rule.preorder rules).length := by
  rw [Rule.preorder, List.length_flatMap]
  rfl

/-- The block of a rule stands in the draft. -/
theorem Draft.Lines.stands [Alphabet] (lines : draft.Lines vocabulary rules) {place : Nat × Rule}
    (member : place ∈ places ruleWidth 0 rules) : ∃ block,
      Layout.block ⟨vocabulary, place.2.name, place.1⟩ none place.1 place.2.definition = .ok block ∧
        Layout.Stands (fun id => draft.elements[id]?) place.1 block := by
  obtain ⟨block, laid, stands⟩ := lines.blocks place member
  refine ⟨block, laid, Layout.along_iff.2 fun k element found => ?_⟩
  rw [← found]
  exact stands k (List.getElem?_eq_some_iff.1 found).1

/-- **The rules begin where they began, and only the elements of one are moved.** -/
theorem Draft.exists_reordering [Alphabet] (permutes : Rule.Permutes x rules others)
    (lines : draft.Lines vocabulary rules) (lines' : draft'.Lines vocabulary others) :
    draft'.rules = draft.rules ∧ ∃ σ : Equiv.Perm Nat,
      (∀ id, draft.elements.length ≤ id → σ id = id) ∧
      (∀ entry ∈ draft.rules, σ entry.2 = entry.2) ∧
      ∀ id element, draft.elements[id]? = some element →
        Layout.Becomes σ x (fun id => draft'.elements[id]?) id element := by
  cases permutes with
  | @inside before after name definition definition' place permutes =>
      obtain ⟨start, start_eq⟩ : ∃ start, start = 0 + extent ruleWidth before := ⟨_, rfl⟩
      rw [show (Rule.preorder before).length = start by
        rw [start_eq, Nat.zero_add, extent_ruleWidth]]
      have same : ruleWidth ⟨name, definition'⟩ = ruleWidth ⟨name, definition⟩ := permutes.length_eq
      have listed : (start, ⟨name, definition⟩) ∈
        places ruleWidth 0 (before ++ ⟨name, definition⟩ :: after) := start_eq ▸ mem_places_middle
      have listed' : (start, ⟨name, definition'⟩) ∈
        places ruleWidth 0 (before ++ ⟨name, definition'⟩ :: after) := start_eq ▸ mem_places_middle
      obtain ⟨block, laid, -⟩ := lines.blocks _ listed
      obtain ⟨block', laid', stands⟩ := lines'.stands listed'
      have wide : block.length = ruleWidth ⟨name, definition⟩ := Layout.block_length laid
      obtain ⟨σ, around, becomes⟩ := Layout.permutes_come permutes laid laid' (Nat.le_refl _)
      -- Any other rule is at the same place in both drafts, and none of its ids is moved.
      have elsewhere : ∀ place ∈ places ruleWidth 0 (before ++ ⟨name, definition⟩ :: after),
          place = (start, ⟨name, definition⟩) ∨
            place ∈ places ruleWidth 0 (before ++ ⟨name, definition'⟩ :: after) ∧
              ∀ i, place.1 ≤ i → i < place.1 + ruleWidth place.2 → σ i = i := by
        intro place member
        rw [start_eq]
        refine (places_replace same member).imp_right fun ⟨listed, apart⟩ =>
          ⟨listed, fun i behind before => around i ?_⟩
        rw [← start_eq] at apart
        dsimp only
        omega
      refine ⟨?_, σ, fun id beyond => around id (Or.inr ?_), fun entry member => ?_,
        fun id element found => ?_⟩
      · rw [lines'.rules_eq, lines.rules_eq, places_append, places_append, places, places, same]
        simp
      · rw [lines.length_eq, extent_append, extent_cons] at beyond
        omega
      · rw [lines.rules_eq] at member
        obtain ⟨place, listed, rfl⟩ := List.mem_map.1 member
        rcases elsewhere place listed with rfl | ⟨-, fixed⟩
        · exact around start (Or.inl (Nat.le_refl _))
        · exact fixed place.1 (Nat.le_refl _)
            (Nat.lt_add_of_pos_right place.2.definition.preorder_pos)
      · obtain ⟨place, listed, there, j, rfl, inside, laidThere, here⟩ := lines.exists_block found
        rcases elsewhere place listed with rfl | ⟨listed', fixed⟩
        · obtain rfl : there = block := Except.ok.inj (laidThere.symm.trans laid)
          exact Layout.along_iff.1 (becomes _ stands) j element here
        · obtain ⟨again, laidAgain, standsAgain⟩ := lines'.stands listed'
          obtain rfl : again = there := Except.ok.inj (laidAgain.symm.trans laidThere)
          rw [← show again.length = ruleWidth place.2 from Layout.block_length laidAgain] at fixed
          exact Layout.along_iff.1 (Layout.block_becomes laidThere rfl fixed standsAgain) j element
            here

/-! ### Grammars -/

/-- The second grammar is the first with the alternatives of the choice `x` in another order:
rules begin where they began, and all other elements have only been renamed. -/
structure Reordered (σ : Equiv.Perm ElementId) (x : ElementId) (g h : Grammar) : Prop where
  choice : g.IsChoice x
  image : g.Image σ h
  vocabulary_eq : h.vocabulary = g.vocabulary
  rules_eq : h.rules = g.rules
  root_eq : h.root = g.root
  fixed : ∀ entry ∈ g.rules, σ entry.2 = entry.2
  root_fixed : σ g.root = g.root
  renames : ∀ id kind, id ≠ x → g.kind? id = some kind → h.kind? (σ id) = some (kind.rename σ σ)

section Reordered

variable {root : Option String} {g h : Grammar} {elements elements' : List (Element ElementId)}
  {start : ElementId}

/-- **Drafts of reordered rules are linked to reordered grammars.** -/
theorem link_reordered [Alphabet] (permutes : Rule.Permutes x rules others)
    (laid : layOut vocabulary rules = .ok draft) (laid' : layOut vocabulary others = .ok draft')
    (linked : link draft = .ok elements) (linked' : link draft' = .ok elements')
    (entry : ∃ name, (name, start) ∈ draft.rules) :
    ∃ σ, Reordered σ x ⟨vocabulary, elements.toArray, draft.rules, start⟩
      ⟨vocabulary, elements'.toArray, draft'.rules, start⟩ := by
  have lines := layOut_lines laid
  have lines' := layOut_lines laid'
  obtain ⟨rules_eq, σ, beyond, fixed, becomes⟩ := Draft.exists_reordering permutes lines lines'
  have length : elements.length = draft.elements.length := link_length linked
  have length' : elements'.length = draft'.elements.length := link_length linked'
  have mentioned : ∀ mention id, resolveMention draft.rules mention = .ok id → σ id = id :=
    fun mention id found => fixed (_, id) (mem_of_lookup (resolveMention_eq_ok.1 found))
  have resolves : ∀ mention, resolveMention draft.rules mention =
      (resolveMention draft.rules mention).map σ := by
    intro mention
    cases found : resolveMention draft.rules mention with
    | error _ => rfl
    | ok id => rw [Except.map, mentioned mention id found]
  -- Rules keep their ids, so links lead to the images of what they led to.
  have images : ∀ id element, elements[id]? = some element → ∃ image, elements'[σ id]? = some image ∧
      image.rule = element.rule ∧ element.kind.Follows σ σ image.kind ∧
      (id ≠ x → image.kind = element.kind.rename σ σ) := by
    intro id element found
    obtain ⟨written, stood, done⟩ := exists_written linked found
    obtain ⟨image, there, rule, follows, renames⟩ := becomes id written stood
    obtain ⟨after', stands', done'⟩ := (getElem?_of_mapM_eq_ok linked').2 _ image there
    obtain ⟨-, rule_eq, kind⟩ := link_eq_ok done
    obtain ⟨-, rule_eq', kind'⟩ := link_eq_ok done'
    rw [rules_eq] at kind'
    refine ⟨after', stands', by rw [rule_eq, rule_eq', rule],
      follows.link mentioned kind kind', fun other => ?_⟩
    rw [renames other, kind_link_rename resolves, kind] at kind'
    exact (Except.ok.inj kind').symm
  have choice : Grammar.IsChoice ⟨vocabulary, elements.toArray, draft.rules, start⟩ x := by
    obtain ⟨alternatives, sortable, written⟩ := permutes.exists_choice
    obtain ⟨_, kind, laidOut, stands, done⟩ :=
      ((layOut_laysOut laid).renders linked start).stands x _ written
    cases laidOut with
    | oneOf filled =>
        obtain rfl := Except.ok.inj done
        exact ⟨_, _, stands⟩
  refine ⟨σ, choice, ⟨.refl _, ?_, congrArg List.length rules_eq, fun id element found => ?_,
    fun id outside => beyond id ?_⟩, rfl, rules_eq, rfl, fixed, ?_, fun id kind other stands => ?_⟩
  · simp [length, length', lines.length_eq, lines'.length_eq, extent_ruleWidth, permutes.length_eq]
  · obtain ⟨image, stands, rule, follows, -⟩ := images id element (by simpa using found)
    exact ⟨image, by simpa using stands, rule, follows⟩
  · simpa [length] using outside
  · obtain ⟨name, member⟩ := entry
    exact fixed _ member
  · obtain ⟨element, found, rfl⟩ := kind?_eq_some.1 stands
    obtain ⟨image, there, -, -, renames⟩ := images id element (by simpa using found)
    exact kind?_eq_some.2 ⟨image, by simpa using there, renames other⟩

/-- No way leads back in the image of a grammar if none does in the grammar. -/
theorem Image.not_reenters {σ : Equiv.Perm ElementId} (image : g.Image σ h)
    (acyclic : ∀ id, ¬ TransGen g.Enters id id) (id : ElementId) : ¬ TransGen h.Enters id id := by
  have back : ∀ a b, h.Enters a b → g.Enters (σ.symm a) (σ.symm b) := by
    intro a b enters
    obtain ⟨kind', stands', entry⟩ := enters_iff.1 enters
    cases stands : g.kind? (σ.symm a) with
    | none =>
        have lost := image.kind?_eq_none stands
        rw [σ.apply_symm_apply, stands'] at lost
        cases lost
    | some kind =>
        obtain ⟨known, stands'', same⟩ := image.exists_kind stands
        rw [σ.apply_symm_apply, stands'] at stands''
        obtain rfl := Option.some.inj stands''
        obtain ⟨before, listed, rfl⟩ := List.mem_map.1 (same.entries_perm.mem_iff.1 entry)
        rw [σ.symm_apply_apply]
        exact enters_iff.2 ⟨kind, stands, listed⟩
  exact fun cycle => acyclic _ (TransGen.lift σ.symm back _ _ cycle)

/-- **Rules are accepted with the alternatives of a choice in any order**, and the grammars that
are made of them differ in that choice only. -/
theorem ofRules_reordered [Alphabet] (permutes : Rule.Permutes x rules others)
    (built : ofRules vocabulary rules root = .ok g) :
    ∃ h σ, ofRules vocabulary others root = .ok h ∧ Reordered σ x g h := by
  have fits := fits_of_ofRules built
  have wellFormed := ofRules_wellFormed built
  obtain ⟨draft, elements, start, nonempty, laid, linked, started, rfl, -⟩ := ofRules_eq_ok built
  have laysOut := layOut_laysOut laid
  have renders := laysOut.renders linked start
  have named : ∀ rule ∈ others, Name.isValid rule.name = true := by
    intro rule member
    have known : rule.name ∈ rules.map Rule.name :=
      permutes.names_eq ▸ List.mem_map_of_mem member
    obtain ⟨other, member', same⟩ := List.mem_map.1 known
    exact same ▸ laysOut.named other member'
  have sound : ∀ part ∈ Rule.preorder rules, part.Sound vocabulary.Declares (Rule.Declares rules) := by
    refine fun part listed => (laysOut.lays.sound part listed).of_reference ?_
    rintro name rfl
    exact renders.declares_of_reference listed
  -- The other rules are laid out and linked because they declare the same names.
  have declared : ∀ name, .reference name ∈ Rule.preorder others → Rule.Declares others name :=
    fun name member => permutes.declares (permutes.sound sound _ member)
  obtain ⟨draft', laid'⟩ := exists_layOut named (permutes.names_eq ▸ laysOut.distinct)
    (permutes.sound laysOut.lays.sound) (permutes.length_eq ▸ fits)
  obtain ⟨elements', linked'⟩ := (layOut_laysOut laid').exists_link declared
  have entry := startRule_mem started (layOut_declares laid nonempty)
  obtain ⟨σ, reordered⟩ := link_reordered permutes laid laid' linked linked' entry
  refine ⟨_, σ, ?_, reordered⟩
  have same : draft'.rules = draft.rules := reordered.rules_eq
  have passed : refuseReentry ⟨vocabulary, elements'.toArray, draft'.rules, start⟩ = .ok () := by
    refine forM_eq_ok ?_
    rintro ⟨name, id⟩ member
    dsimp only
    rw [reentry?_eq_none (reordered.image.not_reenters wellFormed.not_reenters id)]
  have nonempty : ¬ others.isEmpty = true := by
    cases permutes
    simp
  unfold ofRules
  exact guard_eq_ok.2 ⟨nonempty, bind_eq_ok.2 ⟨draft', laid', bind_eq_ok.2 ⟨elements', linked',
    bind_eq_ok.2 ⟨start, same ▸ started, bind_eq_ok.2 ⟨(), passed, rfl⟩⟩⟩⟩⟩

end Reordered

end Grammar

end Dialect
