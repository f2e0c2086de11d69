import Dialect.Proofs.Grammar.Placement

/-!
# Well-formed grammars

What holds of every grammar that was accepted (`Grammar.ofRules_wellFormed`): its
elements are well placed, references lead to rules, and no rule can be entered again
before a token is taken.
-/

set_option autoImplicit false

namespace Dialect

namespace Kind

variable {vocabulary : Vocabulary} {ρ σ ε : Type} {resolve : ρ → Except ε σ}

/-- Linking changes nothing but the targets of references. -/
theorem link_isLeaf {kind : Kind ρ} {linked : Kind σ} (done : kind.link resolve = .ok linked) :
    linked.isLeaf = kind.isLeaf := by
  cases kind with
  | reference target =>
      obtain ⟨id, -, rfl⟩ := map_eq_ok.1 done
      rfl
  | _ =>
      obtain rfl := Except.ok.inj done
      rfl

/-- An element that is well placed among unlinked elements is well placed among the
linked ones. -/
theorem placed_link {look : ElementId → Option (Kind ρ)} {linkedLook : ElementId → Option (Kind σ)}
    (agree : ∀ id kind, look id = some kind →
      ∃ linked, linkedLook id = some linked ∧ kind.link resolve = .ok linked)
    {own : Nat} {kind : Kind ρ} {linked : Kind σ} (done : kind.link resolve = .ok linked)
    (placed : kind.Placed vocabulary look own) : linked.Placed vocabulary linkedLook own := by
  have contains : ∀ id, Contains look own id → Contains linkedLook own id := by
    rintro id ⟨after, stands⟩
    obtain ⟨kind, found⟩ := Option.isSome_iff_exists.1 stands
    obtain ⟨linked, linkedFound, -⟩ := agree id kind found
    exact ⟨after, by simp [linkedFound]⟩
  have delimits : ∀ id, Delimits look own id → Delimits linkedLook own id := by
    rintro id ⟨after, type, found⟩
    obtain ⟨linked, linkedFound, same⟩ := agree id _ found
    simp only [link, Except.ok.injEq] at same
    exact ⟨after, type, same ▸ linkedFound⟩
  have partOf : ∀ id, PartOf look own id → PartOf linkedLook own id := by
    rintro id ⟨after, kind, found, leaf⟩
    obtain ⟨linked, linkedFound, same⟩ := agree id _ found
    exact ⟨after, linked, linkedFound, (link_isLeaf same).trans leaf⟩
  cases kind with
  | token type text flavor =>
      obtain rfl := Except.ok.inj done
      exact placed
  | identifier use isAlias object =>
      obtain rfl := Except.ok.inj done
      trivial
  | sequence slots =>
      obtain rfl := Except.ok.inj done
      exact fun slot member => contains _ (placed slot member)
  | wrapper opening content closing repeated =>
      obtain rfl := Except.ok.inj done
      exact ⟨delimits _ placed.1, contains _ placed.2.1, delimits _ placed.2.2⟩
  | oneOf alternatives sortable =>
      obtain rfl := Except.ok.inj done
      exact fun slot member => contains _ (placed slot member)
  | iteration item separator =>
      obtain rfl := Except.ok.inj done
      exact ⟨contains _ placed.1, fun between member => delimits _ (placed.2 between member)⟩
  | qualified variants separator =>
      obtain rfl := Except.ok.inj done
      obtain ⟨some, parts, between⟩ := placed
      exact ⟨some, fun variant member => ⟨(parts variant member).1, fun part inVariant =>
        partOf _ ((parts variant member).2 part inVariant)⟩, delimits _ between⟩
  | reference target =>
      obtain ⟨id, -, rfl⟩ := map_eq_ok.1 done
      trivial

end Kind

namespace Grammar

/-- What the checks made while a grammar is put together establish. -/
structure WellFormed (g : Grammar) : Prop where
  placed : ∀ id kind, g.kind? id = some kind → kind.Placed g.vocabulary g.kind? id
  targets : ∀ id target, g.kind? id = some (.reference target) →
    ∃ name, (name, target) ∈ g.rules
  roots : ∀ name root, (name, root) ∈ g.rules → root < g.elements.size
  root_lt : g.root < g.elements.size
  noReentry : ∀ name root, (name, root) ∈ g.rules → g.reentry? root = none

theorem mem_of_lookup {rules : List (String × ElementId)} {name : String} {id : ElementId}
    (found : rules.lookup name = some id) : (name, id) ∈ rules := by
  obtain ⟨before, after, rfl, -⟩ := List.lookup_eq_some_iff.1 found
  simp

theorem kind?_eq_some {g : Grammar} {id : ElementId} {kind : Kind ElementId} :
    g.kind? id = some kind ↔ ∃ element, g.elements[id]? = some element ∧ element.kind = kind := by
  simp [kind?]

/-- Whatever stands in the grammar has an id below the number of elements. -/
theorem lt_of_kind?_eq_some {g : Grammar} {id : ElementId} {kind : Kind ElementId}
    (found : g.kind? id = some kind) : id < g.elements.size := by
  obtain ⟨element, found, -⟩ := kind?_eq_some.1 found
  exact (Array.getElem?_eq_some_iff.1 found).1

/-- At every id below the number of elements something stands. -/
theorem kind?_of_lt {g : Grammar} {id : ElementId} (bound : id < g.elements.size) :
    g.kind? id = some g.elements[id].kind := by
  simp [kind?, bound]

/-- An id at which something stands is below the number of elements. -/
theorem lt_of_isSome {g : Grammar} {id : ElementId} (stands : (g.kind? id).isSome = true) :
    id < g.elements.size := by
  obtain ⟨kind, found⟩ := Option.isSome_iff_exists.1 stands
  exact lt_of_kind?_eq_some found

/-- Rules that have been laid out are well placed, wherever their elements stand. -/
def Draft.Placed (vocabulary : Vocabulary) (draft : Draft) : Prop :=
  ∀ look, Layout.Holds look 0 draft.elements →
    Layout.AllPlaced vocabulary look 0 draft.elements ∧
      ∀ name root, (name, root) ∈ draft.rules → (look root).isSome = true

/-- A rule joins a draft when its name is valid and not taken and its elements can be laid out.
They come last, and so does its name. -/
theorem add_eq_ok [Alphabet] {vocabulary : Vocabulary} {draft next : Draft} {rule : Rule} :
    Draft.add vocabulary draft rule = .ok next ↔
      Name.isValid rule.name = true ∧ ¬ (draft.rules.lookup rule.name).isSome = true ∧
        ∃ block, Layout.block ⟨vocabulary, rule.name, draft.elements.length⟩ none
            draft.elements.length rule.definition = .ok block ∧
          ⟨draft.elements ++ block, draft.rules ++ [(rule.name, draft.elements.length)]⟩ = next := by
  unfold Draft.add
  simp only [guard_eq_ok, bind_eq_ok, pure_eq_ok, Bool.not_eq_true', Bool.not_eq_false]

theorem add_placed [Alphabet] {vocabulary : Vocabulary} {draft next : Draft} {rule : Rule}
    (added : Draft.add vocabulary draft rule = .ok next) (placed : draft.Placed vocabulary) :
    next.Placed vocabulary := by
  obtain ⟨-, -, block, laid, rfl⟩ := add_eq_ok.1 added
  intro look held
  obtain ⟨heldBefore, heldBlock⟩ := Layout.along_append.1 held
  obtain ⟨before, roots⟩ := placed look heldBefore
  rw [Nat.zero_add] at heldBlock
  obtain ⟨placedBlock, kind, stands, -⟩ := Layout.block_placed laid heldBlock
  refine ⟨Layout.along_append.2 ⟨before, by rwa [Nat.zero_add]⟩, fun name root member => ?_⟩
  rcases List.mem_append.1 member with earlier | new
  · exact roots name root earlier
  · obtain ⟨-, rfl⟩ : name = rule.name ∧ root = draft.elements.length := by simpa using new
    simp [stands]

theorem layOut_placed [Alphabet] {vocabulary : Vocabulary} {rules : List Rule} {draft : Draft}
    (laid : layOut vocabulary rules = .ok draft) : draft.Placed vocabulary := by
  refine foldlM_induction (Draft.Placed vocabulary) laid ?_
    fun _ _ _ added placed => add_placed added placed
  intro look _
  simp [Layout.Along]

/-- An element that has been linked is the same but for what it refers to. -/
theorem link_eq_ok {resolve : Mention → Except DefinitionError ElementId} {element : Element Mention}
    {after : Element ElementId} (done : element.link resolve = .ok after) :
    after.id = element.id ∧ after.rule = element.rule ∧
      element.kind.link resolve = .ok after.kind := by
  obtain ⟨kind, linked, rfl⟩ := map_eq_ok.1 done
  exact ⟨rfl, rfl, linked⟩

/-- Linking keeps the number of elements. -/
theorem link_length {draft : Draft} {elements : List (Element ElementId)}
    (linked : link draft = .ok elements) : elements.length = draft.elements.length :=
  (getElem?_of_mapM_eq_ok linked).1

/-- What stands in a linked draft is what stood there before, linked. -/
theorem exists_written {draft : Draft} {elements : List (Element ElementId)}
    (linked : link draft = .ok elements) {id : ElementId} {element : Element ElementId}
    (found : elements[id]? = some element) : ∃ written, draft.elements[id]? = some written ∧
      written.link (resolveMention draft.rules) = .ok element := by
  have bound : id < draft.elements.length :=
    link_length linked ▸ (List.getElem?_eq_some_iff.1 found).1
  have stood : draft.elements[id]? = some draft.elements[id] := List.getElem?_eq_getElem bound
  obtain ⟨after, stands, done⟩ := (getElem?_of_mapM_eq_ok linked).2 id _ stood
  obtain rfl := Option.some.inj (stands.symm.trans found)
  exact ⟨_, stood, done⟩

/-- A linked element keeps its kind up to the target of a reference, and a reference
leads to the rule it names. -/
theorem link_kind {draft : Draft} {elements : List (Element ElementId)}
    (linked : link draft = .ok elements) {k : Nat} {element : Element Mention}
    (found : draft.elements[k]? = some element) :
    ∃ after, elements[k]? = some after ∧
      element.kind.link (resolveMention draft.rules) = .ok after.kind := by
  obtain ⟨after, stands, done⟩ := (getElem?_of_mapM_eq_ok linked).2 k element found
  exact ⟨after, stands, (link_eq_ok done).2.2⟩

/-- A name in a list of entries stands for the id that some entry gives it. -/
theorem resolveMention_eq_ok {entries : List (String × ElementId)} {mention : Mention}
    {id : ElementId} :
    resolveMention entries mention = .ok id ↔ entries.lookup mention.target = some id := by
  unfold resolveMention
  cases entries.lookup mention.target <;> simp

/-- A reference of a linked draft leads to a rule. -/
theorem target_mem {rules : List (String × ElementId)} {kind : Kind Mention} {target : ElementId}
    (linked : kind.link (resolveMention rules) = .ok (.reference target)) :
    ∃ name, (name, target) ∈ rules := by
  cases kind with
  | reference mention =>
      obtain ⟨id, resolved, same⟩ := map_eq_ok.1 linked
      obtain rfl := Kind.reference.inj same
      exact ⟨_, mem_of_lookup (resolveMention_eq_ok.1 resolved)⟩
  | _ => cases linked

theorem startRule_mem {rules : List (String × ElementId)} {root : Option String} {id : ElementId}
    (started : startRule rules root = .ok id) (declared : rules ≠ []) :
    ∃ name, (name, id) ∈ rules := by
  unfold startRule at started
  split at started
  · split at started
    · rename_i found
      cases started
      exact ⟨_, mem_of_lookup found⟩
    · cases started
  · cases started
    exact ⟨_, List.mem_cons_self⟩
  · exact absurd rfl declared

/-- Refusing nothing means that no rule can be entered again. -/
theorem of_refuseReentry {g : Grammar} (passed : g.refuseReentry = .ok ()) :
    ∀ name root, (name, root) ∈ g.rules → g.reentry? root = none := by
  intro name root member
  have checked := of_forM_eq_ok passed (name, root) member
  dsimp only at checked
  split at checked
  · assumption
  · cases checked

/-- The steps of putting a grammar together, when all of them succeed. -/
theorem ofRules_eq_ok [Alphabet] {vocabulary : Vocabulary} {rules : List Rule}
    {root : Option String}
    {g : Grammar} (built : ofRules vocabulary rules root = .ok g) :
    ∃ draft elements start, rules ≠ [] ∧ layOut vocabulary rules = .ok draft ∧
      link draft = .ok elements ∧ startRule draft.rules root = .ok start ∧
      g = ⟨vocabulary, elements.toArray, draft.rules, start⟩ ∧ g.refuseReentry = .ok () := by
  unfold ofRules at built
  obtain ⟨declared, built⟩ := guard_eq_ok.1 built
  obtain ⟨draft, laid, built⟩ := bind_eq_ok.1 built
  obtain ⟨elements, linked, built⟩ := bind_eq_ok.1 built
  obtain ⟨start, started, built⟩ := bind_eq_ok.1 built
  obtain ⟨_, passed, built⟩ := bind_eq_ok.1 built
  obtain rfl := pure_eq_ok.1 built
  exact ⟨draft, elements, start, by simpa using declared, laid, linked, started, rfl, passed⟩

/-- A grammar has the vocabulary it was made with. -/
theorem vocabulary_of_ofRules [Alphabet] {vocabulary : Vocabulary} {rules : List Rule}
    {root : Option String}
    {g : Grammar} (built : ofRules vocabulary rules root = .ok g) : g.vocabulary = vocabulary := by
  obtain ⟨_, _, _, -, -, -, -, rfl, -⟩ := ofRules_eq_ok built
  rfl

theorem layOut_declares [Alphabet] {vocabulary : Vocabulary} {rules : List Rule} {draft : Draft}
    (laid : layOut vocabulary rules = .ok draft) (declared : rules ≠ []) : draft.rules ≠ [] := by
  have add_declares : ∀ {before after : Draft} {rule : Rule},
      Draft.add vocabulary before rule = .ok after → after.rules ≠ [] := by
    intro before after rule added
    obtain ⟨-, -, block, -, rfl⟩ := add_eq_ok.1 added
    simp
  cases rules with
  | nil => exact absurd rfl declared
  | cons rule rest =>
      rw [layOut, List.foldlM_cons] at laid
      obtain ⟨first, added, laid⟩ := bind_eq_ok.1 laid
      exact foldlM_induction (fun draft => draft.rules ≠ []) laid (add_declares added)
        fun _ _ _ added _ => add_declares added

/-- **Every accepted grammar is well formed.** -/
theorem ofRules_wellFormed [Alphabet] {vocabulary : Vocabulary} {rules : List Rule}
    {root : Option String}
    {g : Grammar} (built : ofRules vocabulary rules root = .ok g) : g.WellFormed := by
  obtain ⟨draft, elements, start, declared, laid, linked, started, rfl, passed⟩ :=
    ofRules_eq_ok built
  let look : ElementId → Option (Kind Mention) := fun id => draft.elements[id]?.map Element.kind
  have held : Layout.Holds look 0 draft.elements :=
    Layout.along_iff.2 fun k element found => by simp [look, found]
  obtain ⟨placed, roots⟩ := layOut_placed laid look held
  let g : Grammar := ⟨vocabulary, elements.toArray, draft.rules, start⟩
  have agree : ∀ id kind, look id = some kind → ∃ linkedKind, g.kind? id = some linkedKind ∧
      kind.link (resolveMention draft.rules) = .ok linkedKind := by
    intro id kind found
    obtain ⟨element, stands, rfl⟩ : ∃ element, draft.elements[id]? = some element ∧
        element.kind = kind := by simpa [look] using found
    obtain ⟨after, standsAfter, done⟩ := link_kind linked stands
    exact ⟨after.kind, by simp [g, kind?, standsAfter], done⟩
  -- Linking goes element by element, so no place is there that was not in the draft.
  have unlinked : ∀ id kind, g.kind? id = some kind → ∃ element, draft.elements[id]? = some element ∧
      element.kind.link (resolveMention draft.rules) = .ok kind := by
    intro id kind found
    obtain ⟨after, stands, rfl⟩ := kind?_eq_some.1 found
    obtain ⟨written, stood, done⟩ := exists_written linked (by simpa [g] using stands)
    exact ⟨written, stood, (link_eq_ok done).2.2⟩
  have rootBound : ∀ name root, (name, root) ∈ draft.rules → root < g.elements.size := by
    intro name root member
    obtain ⟨kind, found⟩ := Option.isSome_iff_exists.1 (roots name root member)
    obtain ⟨_, linkedFound, -⟩ := agree root kind found
    exact lt_of_kind?_eq_some linkedFound
  obtain ⟨startName, startMember⟩ := startRule_mem started (layOut_declares laid declared)
  refine ⟨fun id linkedKind found => ?_, fun id target found => ?_, rootBound,
    rootBound startName start startMember, of_refuseReentry passed⟩
  · obtain ⟨element, stood, done⟩ := unlinked id linkedKind found
    have elementPlaced := Layout.along_iff.1 placed id element stood
    rw [Nat.zero_add] at elementPlaced
    exact Kind.placed_link agree done elementPlaced
  · obtain ⟨element, -, done⟩ := unlinked id _ found
    exact target_mem done

end Grammar

end Dialect
