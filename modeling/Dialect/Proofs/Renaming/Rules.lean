import Dialect.Proofs.Grammar.Validity
import Dialect.Proofs.Renaming.Blocks
import Dialect.Proofs.Renaming.Places

/-!
# Rules in another order

Rules that are laid out in another order give the same elements at other places: there is a
renaming of ids that takes every element to the one that was made of the same definition, and
keeps its name (`Draft.exists_renaming`).  The grammars that come of the drafts are renamed in the
same way (`ofRules_renamed`), and if one of them is accepted the other one is
(`ofRules_accepts_perm`).
-/

set_option autoImplicit false

namespace Dialect

namespace Grammar

/-- How many elements a rule has. -/
def ruleWidth (rule : Rule) : Nat := rule.definition.preorder.length

/-- The draft has the blocks of the rules one behind the other. -/
structure Draft.Lines [Alphabet] (vocabulary : Vocabulary) (rules : List Rule)
    (draft : Draft) : Prop where
  length_eq : draft.elements.length = extent ruleWidth rules
  rules_eq : draft.rules = (places ruleWidth 0 rules).map fun place => (place.2.name, place.1)
  blocks : ∀ place ∈ places ruleWidth 0 rules, ∃ block,
    Layout.block ⟨vocabulary, place.2.name, place.1⟩ none place.1 place.2.definition = .ok block ∧
      ∀ j < block.length, draft.elements[place.1 + j]? = block[j]?

section Lines

variable {vocabulary : Vocabulary} {rules others : List Rule} {draft draft' : Draft}

theorem add_lines [Alphabet] {rule : Rule} {next : Draft} (lines : draft.Lines vocabulary rules)
    (added : Draft.add vocabulary draft rule = .ok next) :
    next.Lines vocabulary (rules ++ [rule]) := by
  obtain ⟨-, -, block, laid, rfl⟩ := add_eq_ok.1 added
  have wide : block.length = ruleWidth rule := Layout.block_length laid
  have start_eq : 0 + extent ruleWidth rules = draft.elements.length := by
    rw [Nat.zero_add, lines.length_eq]
  constructor
  case length_eq => simp [extent, ← wide, lines.length_eq]
  case rules_eq => rw [places_append, start_eq, List.map_append, ← lines.rules_eq]; rfl
  case blocks =>
    intro place member
    rw [places_append, start_eq] at member
    rcases List.mem_append.1 member with before | last
    · obtain ⟨earlier, laidEarlier, stands⟩ := lines.blocks place before
      refine ⟨earlier, laidEarlier, fun j inside => ?_⟩
      have bound := (bounds_of_mem_places before).2
      have wide : earlier.length = ruleWidth place.2 := Layout.block_length laidEarlier
      rw [List.getElem?_append_left (by rw [lines.length_eq]; omega)]
      exact stands j inside
    · obtain rfl : place = (draft.elements.length, rule) := by simpa [places] using last
      refine ⟨block, laid, fun j inside => ?_⟩
      rw [List.getElem?_append_right (Nat.le_add_right _ _), Nat.add_sub_cancel_left]

/-- **Rules are laid out one behind the other.** -/
theorem layOut_lines [Alphabet] (laid : layOut vocabulary rules = .ok draft) :
    draft.Lines vocabulary rules := by
  induction rules using List.reverseRecOn generalizing draft with
  | nil =>
      obtain rfl := pure_eq_ok.1 laid
      exact ⟨rfl, rfl, nofun⟩
  | append_singleton rules rule ih =>
      rw [layOut_append] at laid
      obtain ⟨before, laidBefore, added⟩ := bind_eq_ok.1 laid
      exact add_lines (ih laidBefore) added

/-- There are ids for all elements of a draft. -/
theorem Draft.Lines.fits [Alphabet] (lines : draft.Lines vocabulary rules) :
    draft.elements.length ≤ Supply.elements.capacity := by
  rw [lines.length_eq]
  rcases Nat.eq_zero_or_pos (extent ruleWidth rules) with none | some
  · rw [none]
    exact Nat.zero_le _
  · have bound : extent ruleWidth rules - 1 < 0 + extent ruleWidth rules := by omega
    obtain ⟨place, member, j, inside, last⟩ := exists_place (Nat.zero_le _) bound
    obtain ⟨block, laid, -⟩ := lines.blocks place member
    have fits := Layout.block_fits laid
    have wide : block.length = ruleWidth place.2 := Layout.block_length laid
    omega

/-- Every element of a draft stands in the block of a rule. -/
theorem Draft.Lines.exists_block [Alphabet] (lines : draft.Lines vocabulary rules) {id : ElementId}
    {element : Element Mention} (found : draft.elements[id]? = some element) :
    ∃ place ∈ places ruleWidth 0 rules, ∃ block j, id = place.1 + j ∧ j < block.length ∧
      Layout.block ⟨vocabulary, place.2.name, place.1⟩ none place.1 place.2.definition = .ok block ∧
        block[j]? = some element := by
  have bound : id < 0 + extent ruleWidth rules := by
    rw [Nat.zero_add, ← lines.length_eq]
    exact (List.getElem?_eq_some_iff.1 found).1
  obtain ⟨place, member, j, inside, rfl⟩ := exists_place (Nat.zero_le id) bound
  obtain ⟨block, laid, stands⟩ := lines.blocks place member
  have inside : j < block.length := (Layout.block_length laid).symm ▸ inside
  exact ⟨place, member, block, j, rfl, inside, laid, (stands j inside).symm.trans found⟩

/-- **Rules in another order are the same rules at other places.** -/
theorem Draft.exists_renaming [Alphabet] (perm : rules.Perm others)
    (lines : draft.Lines vocabulary rules)
    (lines' : draft'.Lines vocabulary others) : ∃ σ : Equiv.Perm ElementId,
      (∀ id, draft.elements.length ≤ id → σ id = id) ∧
      draft'.rules.Perm (draft.rules.map fun entry => (entry.1, σ entry.2)) ∧
      ∀ id element, draft.elements[id]? = some element →
        draft'.elements[σ id]? = some (element.rename σ fun mention => mention) := by
  obtain ⟨σ, shuffles⟩ :=
    exists_shuffle ruleWidth perm (fun rule _ => rule.definition.preorder_pos) 0
  have ⟨around, slides, moved⟩ := shuffles
  refine ⟨σ, fun id beyond => around id (Or.inr ?_), ?_, fun id element found => ?_⟩
  · rw [Nat.zero_add, ← lines.length_eq]
    exact beyond
  · rw [lines'.rules_eq, lines.rules_eq, List.map_map]
    refine (moved.map _).trans (.of_eq ?_)
    rw [List.map_map]
    rfl
  · obtain ⟨place, member, block, j, rfl, inside, laid, stands⟩ := lines.exists_block found
    have wide : block.length = ruleWidth place.2 := Layout.block_length laid
    obtain ⟨block', laid', stands'⟩ :=
      lines'.blocks _ (moved.mem_iff.2 (List.mem_map_of_mem member))
    have carries : Layout.Carries ⟨vocabulary, place.2.name, place.1⟩
        ⟨vocabulary, place.2.name, σ place.1⟩ σ place.1 (σ place.1) (place.1 + block.length)
        fun element element' => element' = element.rename σ fun mention => mention := by
      have moves := fun id (behind : place.1 ≤ id) (before : id < place.1 + block.length) =>
        shuffles.slides_from member behind (wide ▸ before)
      refine ⟨rfl, rfl, moves, fun parent id kind behind before => ?_⟩
      -- Names are made from the distance to the root of the rule, which is kept.
      have moved := moves id behind before
      have first : σ id = σ place.1 ↔ id = place.1 := σ.injective.eq_iff
      have number : σ id - σ place.1 = id - place.1 := by omega
      unfold Layout.element Element.rename
      by_cases own : id = place.1
      · simp only [own, if_true]
      · simp only [first, own, if_false, number]
    have carried := Layout.block_carried carries laid laid' rfl (Nat.le_refl _) (by omega)
      (Nat.le_refl _)
    have inside' : j < block'.length := carried.length_eq ▸ inside
    have element_eq := List.Forall₂.get carried inside inside'
    have here : block[j] = element := by
      rw [List.getElem?_eq_getElem inside] at stands
      exact Option.some.inj stands
    rw [slides place member j (wide ▸ inside), stands' j inside', List.getElem?_eq_getElem inside', ← here]
    exact congrArg some element_eq

end Lines

/-! ### Links -/

section Links

variable {σ : ElementId → ElementId} {ε : Type} {resolve resolve' : Mention → Except ε ElementId}

/-- A renamed kind is linked to what the kind is linked to, renamed. -/
theorem kind_link_rename (resolves : ∀ mention, resolve' mention = (resolve mention).map σ)
    (kind : Kind Mention) : (kind.rename σ fun mention => mention).link resolve' =
      (kind.link resolve).map (Kind.rename σ σ) := by
  cases kind with
  | reference mention =>
      simp only [Kind.rename, Kind.link, resolves]
      cases resolve mention <;> rfl
  | _ => rfl

theorem link_rename (resolves : ∀ mention, resolve' mention = (resolve mention).map σ)
    (element : Element Mention) : (element.rename σ fun mention => mention).link resolve' =
      (element.link resolve).map (Element.rename σ σ) := by
  unfold Element.link Element.rename
  dsimp only
  rw [kind_link_rename resolves]
  cases element.kind.link resolve <;> rfl

/-- Names mean the renamed ids. -/
theorem lookup_rename {entries entries' : List (String × ElementId)}
    (distinct : (entries.map Prod.fst).Nodup)
    (perm : entries'.Perm (entries.map fun entry => (entry.1, σ entry.2))) (name : String) :
    entries'.lookup name = (entries.lookup name).map σ := by
  have names : (entries'.map Prod.fst).Perm (entries.map Prod.fst) := by
    refine (perm.map _).trans (.of_eq ?_)
    rw [List.map_map]
    rfl
  cases found : entries.lookup name with
  | some id =>
      have member : (name, σ id) ∈ entries' :=
        perm.mem_iff.2 (List.mem_map.2 ⟨_, mem_of_lookup found, rfl⟩)
      exact lookup_of_mem (names.nodup_iff.2 distinct) member
  | none =>
      by_contra taken
      have taken := lookup_isSome_iff.1 (Option.isSome_iff_ne_none.2 taken)
      have known := lookup_isSome_iff.2 (names.mem_iff.1 taken)
      rw [found] at known
      cases known

end Links

/-! ### Grammars -/

/-- The second grammar is the first with other ids: the elements keep their names, and what
they say of each other. -/
structure Renamed (σ : Equiv.Perm ElementId) (g h : Grammar) : Prop where
  vocabulary_eq : h.vocabulary = g.vocabulary
  size_eq : h.elements.size = g.elements.size
  elements : ∀ id element, g.elements[id]? = some element →
    h.elements[σ id]? = some (element.rename σ σ)
  beyond : ∀ id, g.elements.size ≤ id → σ id = id
  rules_length : h.rules.length = g.rules.length
  rules : ∀ name, h.rule? name = (g.rule? name).map σ
  root_eq : h.root = σ g.root

section Grammars

variable {vocabulary : Vocabulary} {rules others : List Rule} {root : Option String} {name : String}
  {g h : Grammar}

theorem Renamed.image {σ : Equiv.Perm ElementId} (renamed : g.Renamed σ h) : g.Image σ h where
  similar := renamed.vocabulary_eq ▸ .refl _
  size_eq := renamed.size_eq
  rules_length := renamed.rules_length
  elements id element found := ⟨_, renamed.elements id element found, rfl, .renamed _⟩
  beyond := renamed.beyond

/-- **The grammars of the same rules in another order differ in the ids only.** -/
theorem ofRules_renamed [Alphabet] (perm : rules.Perm others)
    (built : ofRules vocabulary rules (some name) = .ok g)
    (built' : ofRules vocabulary others (some name) = .ok h) : ∃ σ, g.Renamed σ h := by
  obtain ⟨draft, elements, start, -, laid, linked, started, rfl, -⟩ := ofRules_eq_ok built
  obtain ⟨draft', elements', start', -, laid', linked', started', rfl, -⟩ := ofRules_eq_ok built'
  have lines := layOut_lines laid
  have lines' := layOut_lines laid'
  have laysOut := layOut_laysOut laid
  obtain ⟨σ, beyond, entries, carried⟩ := Draft.exists_renaming perm lines lines'
  have length : elements.length = draft.elements.length := link_length linked
  have length' : elements'.length = draft'.elements.length := link_length linked'
  have names : ∀ name, draft'.rules.lookup name = (draft.rules.lookup name).map σ :=
    lookup_rename (laysOut.names_eq ▸ laysOut.distinct) entries
  -- References go by name, and names mean the renamed ids.
  have resolves : ∀ mention, resolveMention draft'.rules mention =
      (resolveMention draft.rules mention).map σ := by
    intro mention
    unfold resolveMention
    rw [names]
    cases draft.rules.lookup mention.target <;> rfl
  refine ⟨σ, rfl, ?_, fun id element found => ?_, fun id outside => beyond id ?_, ?_, names, ?_⟩
  · simp [length, length', lines.length_eq, lines'.length_eq, extent_perm perm]
  · obtain ⟨written, stood, done⟩ := exists_written linked (by simpa using found)
    obtain ⟨after', stands', done'⟩ :=
      (getElem?_of_mapM_eq_ok linked').2 _ _ (carried id written stood)
    rw [link_rename resolves, done] at done'
    obtain rfl := Except.ok.inj done'
    simpa using stands'
  · simpa [length] using outside
  · simpa using entries.length_eq
  · unfold startRule at started started'
    dsimp only at started started'
    rw [names] at started'
    cases found : draft.rules.lookup name with
    | none => simp [found] at started
    | some id =>
        simp only [found, Option.map_some, Except.ok.injEq] at started started'
        rw [← started', ← started]

/-- There are ids for all elements of a grammar. -/
theorem fits_of_ofRules [Alphabet] (built : ofRules vocabulary rules root = .ok g) :
    (Rule.preorder rules).length ≤ Supply.elements.capacity := by
  obtain ⟨draft, elements, start, -, laid, -⟩ := ofRules_eq_ok built
  rw [← (layOut_laysOut laid).lays.length_eq]
  exact (layOut_lines laid).fits

/-- The same definitions come of the rules in any order. -/
theorem preorder_perm (perm : rules.Perm others) :
    (Rule.preorder rules).Perm (Rule.preorder others) :=
  perm.flatMap_right _

/-- What is asked of rules does not depend on their order. -/
theorem valid_perm [Alphabet] (perm : rules.Perm others)
    (valid : Rule.Valid vocabulary rules root) :
    Rule.Valid vocabulary others root := by
  have declares : Rule.Declares others = Rule.Declares rules := by
    funext name
    exact propext (exists_congr fun rule => and_congr_left' perm.symm.mem_iff)
  have leads : ∀ definition other, Definition.Leads others definition other →
      Definition.Leads rules definition other := by
    intro definition other leads
    cases leads with
    | sequence member => exact .sequence member
    | oneOf member => exact .oneOf member
    | iteration => exact .iteration
    | wrapper => exact .wrapper
    | reference member => exact .reference (perm.mem_iff.2 member)
  refine ⟨?_, ?_, ?_, ?_, ?_, ?_⟩
  · rintro rfl
    exact valid.nonempty perm.eq_nil
  · exact fun rule member => valid.named rule (perm.mem_iff.2 member)
  · exact (perm.map _).nodup_iff.1 valid.distinct
  · intro part member
    rw [declares]
    exact valid.sound part ((preorder_perm perm).mem_iff.2 member)
  · rw [declares]
    exact valid.rooted
  · exact fun definition cycle =>
      valid.acyclic definition (Relation.TransGen.mono leads _ _ cycle)

/-- **Whether rules are accepted does not depend on their order.** -/
theorem ofRules_accepts_perm [Alphabet] (perm : rules.Perm others)
    (accepted : ∃ g, ofRules vocabulary rules root = .ok g) :
    ∃ h, ofRules vocabulary others root = .ok h := by
  obtain ⟨g, built⟩ := accepted
  have fits := fits_of_ofRules built
  have fits' : (Rule.preorder others).length ≤ Supply.elements.capacity := by
    rwa [← (preorder_perm perm).length_eq]
  rw [ofRules_accepts_iff _ _ _ fits']
  exact valid_perm perm ((ofRules_accepts_iff _ _ _ fits).1 ⟨g, built⟩)

end Grammars

end Grammar

end Dialect
