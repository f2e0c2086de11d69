import Dialect.Proofs.Grammar.Preorder

/-!
# Reading rules back

A grammar keeps all that its rules say (`ofRules_retains`).  What an element was declared as can
be read off the grammar (`Grammar.declared?`), with token types and rules named again, and it is
what stands at its place in the rules, from left to right.
-/

set_option autoImplicit false

namespace Dialect

namespace Grammar

/-! ### Reading back -/

/-- The name of a token type. -/
def typeName? (g : Grammar) (type : TokenTypeId) : Option String :=
  g.vocabulary.types[type]?.map TokenType.name

/-- The name of the token type that a delimiter or a separator consists of. -/
def delimiter? (g : Grammar) (id : ElementId) : Option String :=
  match g.kind? id with
  | some (.token type none none) => g.typeName? type
  | _ => none

/-- The name of the rule of which the element is the root. -/
def ruleAt? (g : Grammar) (id : ElementId) : Option String := g.elements[id]?.bind Element.rule

/-- What the element was declared as, read off the grammar down to so many levels. -/
def declared? (g : Grammar) : (levels : Nat) → ElementId → Option Definition
  | 0, _ => none
  | levels + 1, id => do
      match ← g.kind? id with
      | .token type text flavor => return .token (← g.typeName? type) text flavor
      | .identifier use isAlias object => return .identifier use isAlias object
      | .sequence slots =>
          return .sequence (← slots.mapM fun slot =>
            (declared? g levels slot.item).map slot.replace)
      | .wrapper opening content closing repeated =>
          return .wrapper (← g.delimiter? opening)
            (content.replace (← declared? g levels content.item)) (← g.delimiter? closing) repeated
      | .oneOf alternatives sortable =>
          return .oneOf (← alternatives.mapM fun slot =>
            (declared? g levels slot.item).map slot.replace) sortable
      | .iteration item none => return .iteration (← declared? g levels item) none
      | .iteration item (some separator) =>
          return .iteration (← declared? g levels item) (some (← g.delimiter? separator))
      | .qualified variants separator =>
          return .qualified (← variants.mapM fun parts => parts.mapM (declared? g levels))
            (← g.delimiter? separator)
      | .reference target => return .reference (← g.ruleAt? target)

section Reading

variable {g : Grammar} {rules : List Rule}

/-- What is made of each item of a list is what stands beside it. -/
theorem mapM_eq_some {α β : Type} {related : α → β → Prop} {f : β → Option α} {xs : List α}
    {ys : List β} (beside : List.Forall₂ related xs ys)
    (made : ∀ x, ∀ y ∈ ys, related x y → f y = some x) : ys.mapM f = some xs := by
  induction beside with
  | nil => rfl
  | @cons x y xs ys here _ ih =>
      have first := made x y List.mem_cons_self here
      have rest := ih fun x y member => made x y (List.mem_cons_of_mem _ member)
      simp [List.mapM_cons, first, rest]

theorem typeName?_of_resolve {name : String} {type : TokenTypeId}
    (resolved : g.vocabulary.resolve name = .ok type) : g.typeName? type = some name := by
  rw [Vocabulary.resolve_eq_ok, Vocabulary.lookup?, Array.findIdx?_eq_some_iff_getElem] at resolved
  obtain ⟨bound, named, -⟩ := resolved
  simpa [typeName?, bound] using named

theorem Renders.delimiter?_eq [Alphabet] (renders : g.Renders rules) {id : ElementId}
    {name : String}
    (stands : written rules id = some (.token name none none)) : g.delimiter? id = some name := by
  obtain ⟨laid, kind, laidOut, found, linked⟩ := renders.stands id _ stands
  cases laidOut with
  | token resolved =>
      cases linked
      simp only [delimiter?, found]
      exact typeName?_of_resolve resolved

/-- **What an element was declared as can be read back.** -/
theorem Renders.declared?_eq [Alphabet] (renders : g.Renders rules) (wellFormed : g.WellFormed)
    (named : ∀ name root, (name, root) ∈ g.rules → g.ruleAt? root = some name) {levels : Nat} :
    ∀ {id : Nat} {definition : Definition}, written rules id = some definition →
      g.elements.size ≤ levels + id → g.declared? levels id = some definition := by
  induction levels with
  | zero =>
      intro id definition stands enough
      have bound : id < (Rule.preorder rules).length := (List.getElem?_eq_some_iff.1 stands).1
      rw [← renders.size_eq] at bound
      omega
  | succ levels ih =>
      intro id definition stands enough
      obtain ⟨laid, kind, laidOut, found, linked⟩ := renders.stands id _ stands
      have placed := wellFormed.placed id kind found
      -- what is below an element stands behind it, so one level less will do for it
      have below : ∀ {inner : Nat} {part : Definition}, id < inner →
          written rules inner = some part → g.declared? levels inner = some part :=
        fun behind stands => ih stands (by omega)
      have filled : ∀ {slot : Slot Definition} {laid : Slot ElementId}, id < laid.item →
          Layout.FilledAs (written rules) slot laid →
            (g.declared? levels laid.item).map laid.replace = some slot := by
        rintro slot laid behind ⟨same, stands⟩
        rw [below behind stands, same]
        rfl
      rw [declared?, found]
      cases laidOut with
      | token resolved =>
          cases linked
          simp [typeName?_of_resolve resolved]
      | identifier => cases linked; rfl
      | sequence slots =>
          cases linked
          have read := mapM_eq_some slots fun slot laid member => filled (placed laid member).1
          simp [read]
      | @wrapper opening content closing repeated first inner last opens fills closes =>
          cases linked
          obtain ⟨read, same⟩ := Option.map_eq_some_iff.1 (filled placed.2.1.1 fills)
          simp [renders.delimiter?_eq opens, renders.delimiter?_eq closes, same]
      | oneOf slots =>
          cases linked
          have read := mapM_eq_some slots fun slot laid member => filled (placed laid member).1
          simp [read]
      | @iteration item separator inner between repeats separates =>
          cases linked
          have read := below placed.1.1 repeats
          cases separates with
          | none => simp [read]
          | some joins => simp [read, renders.delimiter?_eq joins]
      | @qualified variants separator laid between parts joins =>
          cases linked
          have read := mapM_eq_some (f := fun parts => parts.mapM (g.declared? levels)) parts
            fun variant parts inVariants named => mapM_eq_some named fun part inner inParts =>
              below ((placed.2.1 parts inVariants).2 inner inParts).1
          simp [read, renders.delimiter?_eq joins]
      | @reference rule mention names =>
          obtain ⟨target, resolved, rfl⟩ := map_eq_ok.1 linked
          have member := mem_of_lookup (resolveMention_eq_ok.1 resolved)
          simp [named _ _ member, names]

end Reading

/-! ### Nothing is lost -/

/-- What stands in the slots of the element with the given id. -/
def contentsAt (g : Grammar) (id : ElementId) : List ElementId :=
  ((g.outline id).map Outline.contents).getD []

/-- The grammar keeps all that the rules say, and where they say it. -/
structure Retains (g : Grammar) (rules : List Rule) : Prop where
  /-- Every element stands at the place that is its id. -/
  numbered : ∀ (id : ElementId) (element : Element ElementId),
    g.elements[id]? = some element → element.id = id
  /-- No ids are mentioned but those of elements. -/
  inRange : ∀ (id : ElementId) (element : Element ElementId),
    g.elements[id]? = some element →
    (∀ inner ∈ element.kind.contents, inner < g.elements.size) ∧
      (∀ target, element.kind = .reference target → target < g.elements.size) ∧
      ∀ above ∈ element.parent, above < g.elements.size
  /-- The rules take consecutive places, one rule behind the other in the order in which they were
  declared, and the elements of the last one are the last elements. -/
  rules_eq : g.rules = (places ruleWidth 0 rules).map fun place => (place.2.name, place.1)
  size_eq : g.elements.size = extent ruleWidth rules
  /-- Each rule is found under its name.  Its root has no parent and is marked with its name, and
  going from there through all slots meets the elements in the order of their places. -/
  blocks : ∀ (start : Nat) (rule : Rule), (start, rule) ∈ places ruleWidth 0 rules →
    g.rule? rule.name = some start ∧
      (∃ element, g.elements[start]? = some element ∧ element.parent = none ∧
        element.rule = some rule.name) ∧
      preorderFrom g.outline g.elements.size start = List.range' start (ruleWidth rule)
  /-- Every element that is the root of no rule stands in one slot of its parent, which comes
  before it, and in no other slot. -/
  inside : ∀ (id : ElementId) (element : Element ElementId),
    g.elements[id]? = some element → (∀ name, (name, id) ∉ g.rules) →
    element.rule = none ∧ ∃ above, element.parent = some above ∧ above < id ∧
      (g.contentsAt above).count id = 1 ∧ ∀ other, id ∈ g.contentsAt other → other = above
  /-- Every reference leads to the root of the rule it was declared with. -/
  references : ∀ id target, g.kind? id = some (.reference target) → ∃ name,
    g.declared? g.elements.size id = some (.reference name) ∧ g.rule? name = some target
  /-- What a rule was declared as can be read back from its root. -/
  declared : ∀ rule ∈ rules, ∃ root, g.rule? rule.name = some root ∧
    g.declared? g.elements.size root = some rule.definition

section Built

variable [Alphabet] {vocabulary : Vocabulary} {rules : List Rule} {root : Option String}
  {g : Grammar}
  (built : ofRules vocabulary rules root = .ok g)

include built

/-- Each element takes places with all that is below it, and either it is the root of a rule or
it stands in a slot of its parent. -/
theorem exists_occupies {id : Nat} (bound : id < g.elements.size) :
    (∃ rule stop, (id, rule) ∈ places ruleWidth 0 rules ∧ stop ≤ g.elements.size ∧
      Occupies g.outline (some rule.name) none id stop) ∨
    ∃ above stop, above < id ∧ stop ≤ g.elements.size ∧
      Occupies g.outline none (some above) id stop ∧ StandsIn g.outline above id := by
  have size_eq := size_eq_of_ofRules built
  obtain ⟨⟨start, rule⟩, member, j, inside, rfl⟩ :=
    exists_place (Nat.zero_le id) (by rwa [Nat.zero_add, ← size_eq])
  have whole := (bounds_of_mem_places member).2
  rw [Nat.zero_add, ← size_eq] at whole
  have occupies := ofRules_occupies built member
  rcases Nat.eq_zero_or_pos j with rfl | behind
  · exact .inl ⟨rule, _, member, whole, occupies⟩
  · obtain ⟨above, last, within, here, -, before, standsIn⟩ :=
      occupies.exists_inside (x := start + j) (by omega) (by dsimp only at inside; omega)
    exact .inr ⟨above, last, before, Nat.le_trans within whole, here, standsIn⟩

/-- What stands in the slots of an element stands in ascending places behind it and has it for
its parent. -/
theorem contentsAt_ascending (id : Nat) :
    (g.contentsAt id).Pairwise (· < ·) ∧ ∀ inner ∈ g.contentsAt id, inner < g.elements.size ∧
      ∃ contents, g.outline inner = some ⟨none, some id, contents⟩ := by
  by_cases bound : id < g.elements.size
  · obtain ⟨rule, parent, stop, whole, stands, row⟩ : ∃ rule parent stop,
        stop ≤ g.elements.size ∧ g.outline id = some ⟨rule, parent, g.contentsAt id⟩ ∧
          OccupyRow g.outline id (id + 1) (g.contentsAt id) stop := by
      rcases exists_occupies built bound with
        ⟨rule, stop, -, whole, stands, row⟩ | ⟨above, stop, -, whole, ⟨stands, row⟩, -⟩
      · rw [contentsAt, stands]
        exact ⟨some rule.name, none, stop, whole, rfl, row⟩
      · rw [contentsAt, stands]
        exact ⟨none, some above, stop, whole, rfl, row⟩
    obtain ⟨sorted, within⟩ := row.ascending
    exact ⟨sorted, fun inner member => ⟨Nat.lt_of_lt_of_le (within inner member).2.1 whole,
      (within inner member).2.2⟩⟩
  · have nothing : g.contentsAt id = [] := by
      simp [contentsAt, outline, Array.getElem?_eq_none (Nat.le_of_not_lt bound)]
    rw [nothing]
    exact ⟨.nil, fun inner member => absurd member List.not_mem_nil⟩

/-- The root of a rule is marked with the name of the rule. -/
theorem ruleAt?_of_mem {name : String} {start : ElementId} (member : (name, start) ∈ g.rules) :
    g.ruleAt? start = some name := by
  rw [rules_eq_of_ofRules built] at member
  obtain ⟨⟨first, rule⟩, inPlaces, same⟩ := List.mem_map.1 member
  cases same
  cases ofRules_occupies built inPlaces with
  | intro stands row =>
      obtain ⟨element, found, outline_eq⟩ := Option.map_eq_some_iff.1 stands
      simp only [ruleAt?, found, Option.bind_some]
      exact congrArg Outline.rule outline_eq

theorem renders_of_ofRules : g.Renders rules := by
  obtain ⟨draft, elements, start, -, laid, linked, -, rfl, -⟩ := ofRules_eq_ok built
  exact (layOut_laysOut laid).renders linked start

/-- A rule is found under its name where its elements begin. -/
theorem rule?_of_mem_places {start : Nat} {rule : Rule}
    (member : (start, rule) ∈ places ruleWidth 0 rules) : g.rule? rule.name = some start :=
  lookup_of_mem (renders_of_ofRules built).distinct
    (rules_eq_of_ofRules built ▸ List.mem_map.2 ⟨_, member, rfl⟩)

/-- What stands anywhere is read back as what was declared there. -/
theorem declared?_eq_written {id : ElementId} {definition : Definition}
    (stands : written rules id = some definition) :
    g.declared? g.elements.size id = some definition :=
  (renders_of_ofRules built).declared?_eq (ofRules_wellFormed built)
    (fun _ _ => ruleAt?_of_mem built) stands (Nat.le_add_right _ _)

theorem inRange_of_ofRules {id : ElementId} {element : Element ElementId}
    (found : g.elements[id]? = some element) :
    (∀ inner ∈ element.kind.contents, inner < g.elements.size) ∧
      (∀ target, element.kind = .reference target → target < g.elements.size) ∧
      ∀ above ∈ element.parent, above < g.elements.size := by
  have bound : id < g.elements.size := (Array.getElem?_eq_some_iff.1 found).1
  have outline_eq : g.outline id = some element.outline := by simp [outline, found]
  have wellFormed := ofRules_wellFormed built
  refine ⟨fun inner member => ?_, fun target refers => ?_, fun above parent => ?_⟩
  · have stands : inner ∈ g.contentsAt id := by
      simpa [contentsAt, outline_eq, Element.outline] using member
    exact ((contentsAt_ascending built id).2 inner stands).1
  · obtain ⟨name, member⟩ := wellFormed.targets id target (kind?_eq_some.2 ⟨_, found, refers⟩)
    exact wellFormed.roots name target member
  · have parent_eq : element.outline.parent = some above := parent
    rcases exists_occupies built bound with
      ⟨rule, stop, -, -, stands, -⟩ | ⟨higher, stop, before, -, ⟨stands, -⟩, -⟩
    · rw [Option.some.inj (outline_eq.symm.trans stands)] at parent_eq
      cases parent_eq
    · rw [Option.some.inj (outline_eq.symm.trans stands)] at parent_eq
      cases parent_eq
      exact Nat.lt_trans before bound

/-- The root of a rule has no parent, and all that is below it is met in the order of places. -/
theorem block_of_ofRules {start : Nat} {rule : Rule}
    (member : (start, rule) ∈ places ruleWidth 0 rules) :
    (∃ element, g.elements[start]? = some element ∧ element.parent = none ∧
      element.rule = some rule.name) ∧
      preorderFrom g.outline g.elements.size start = List.range' start (ruleWidth rule) := by
  have occupies := ofRules_occupies built member
  have whole := (bounds_of_mem_places member).2
  rw [Nat.zero_add, ← size_eq_of_ofRules built] at whole
  dsimp only at whole
  have enough : start + ruleWidth rule - start ≤ g.elements.size := by omega
  have row := occupies.preorder_eq enough
  rw [Nat.add_sub_cancel_left] at row
  refine ⟨?_, row⟩
  cases occupies with
  | intro stands _ =>
      obtain ⟨element, found, outline_eq⟩ := Option.map_eq_some_iff.1 stands
      exact ⟨element, found, congrArg Outline.parent outline_eq, congrArg Outline.rule outline_eq⟩

/-- What is the root of no rule stands in one slot of its parent and nowhere else. -/
theorem inside_of_ofRules {id : ElementId} {element : Element ElementId}
    (found : g.elements[id]? = some element) (noRoot : ∀ name, (name, id) ∉ g.rules) :
    element.rule = none ∧ ∃ above, element.parent = some above ∧ above < id ∧
      (g.contentsAt above).count id = 1 ∧ ∀ other, id ∈ g.contentsAt other → other = above := by
  have bound : id < g.elements.size := (Array.getElem?_eq_some_iff.1 found).1
  have outline_eq : g.outline id = some element.outline := by simp [outline, found]
  rcases exists_occupies built bound with
    ⟨rule, stop, member, -⟩ | ⟨above, stop, before, -, ⟨stands, -⟩, standsIn⟩
  · exact absurd (rules_eq_of_ofRules built ▸ List.mem_map.2 ⟨_, member, rfl⟩) (noRoot rule.name)
  · have own := Option.some.inj (outline_eq.symm.trans stands)
    have member : id ∈ g.contentsAt above := by
      obtain ⟨outline, there, member⟩ := standsIn
      simpa [contentsAt, there] using member
    have nodup : (g.contentsAt above).Nodup := (contentsAt_ascending built above).1.imp Nat.ne_of_lt
    refine ⟨congrArg Outline.rule own, above, congrArg Outline.parent own, before,
      List.count_eq_one_of_mem nodup member, fun other inOther => ?_⟩
    obtain ⟨-, contents, stands'⟩ := (contentsAt_ascending built other).2 id inOther
    have same := congrArg Outline.parent (Option.some.inj (stands.symm.trans stands'))
    exact (Option.some.inj same).symm

/-- A reference leads to the rule that was declared in its place. -/
theorem reference_of_ofRules {id target : ElementId}
    (refers : g.kind? id = some (.reference target)) : ∃ name,
      g.declared? g.elements.size id = some (.reference name) ∧ g.rule? name = some target := by
  have renders := renders_of_ofRules built
  have bound : id < (Rule.preorder rules).length :=
    renders.size_eq ▸ lt_of_kind?_eq_some refers
  have stands : written rules id = some (Rule.preorder rules)[id] := List.getElem?_eq_getElem bound
  have declared := declared?_eq_written built stands
  obtain ⟨laid, kind, laidOut, found, linked⟩ := renders.stands id _ stands
  obtain rfl := Option.some.inj (refers.symm.trans found)
  generalize (Rule.preorder rules)[id] = definition at laidOut declared
  cases laidOut with
  | @reference name mention names =>
      obtain ⟨other, resolved, same⟩ := map_eq_ok.1 linked
      cases same
      exact ⟨name, declared, names ▸ resolveMention_eq_ok.1 resolved⟩
  | _ => cases linked

/-- **A grammar keeps all that its rules say.** -/
theorem ofRules_retains : g.Retains rules where
  numbered _ _ := id_eq_of_ofRules built
  inRange _ _ := inRange_of_ofRules built
  rules_eq := rules_eq_of_ofRules built
  size_eq := size_eq_of_ofRules built
  blocks _ _ member := ⟨rule?_of_mem_places built member, block_of_ofRules built member⟩
  inside _ _ := inside_of_ofRules built
  references _ _ := reference_of_ofRules built
  declared rule member := by
    obtain ⟨⟨name, root⟩, inRules, rfl, stands⟩ :=
      exists_right (renders_of_ofRules built).roots member
    exact ⟨root, lookup_of_mem (renders_of_ofRules built).distinct inRules,
      declared?_eq_written built stands⟩

end Built

/-- Two rules with elements of every kind, the first of which refers to the second. -/
def dropRules : List Rule :=
  [⟨"drop", .sequence [.required (.token "A" (some "a") (some .function)),
      ⟨.reference "name", true, 3⟩,
      .required (.wrapper "B" (.required (.iteration (.identifier .definition true (some "t"))
        (some "C"))) "D" true)]⟩,
    ⟨"name", .oneOf [.required (.qualified [[.identifier .reference false none,
        .identifier .reference false (some "t")], [.token "A" none none]] "C"),
      ⟨.token "D" none none, false, 2⟩] true⟩]

/-- The grammar of the two rules. -/
def drop : Grammar where
  vocabulary := ⟨"test", #[.keyword "A" "a", .keyword "B" "b", .keyword "C" "c", .keyword "D" "d"]⟩
  elements := #[
    ⟨0, "drop", some "drop", none, .sequence [.required 1, ⟨2, true, 3⟩, .required 3]⟩,
    ⟨1, "drop#1", none, some 0, .token 0 (some "a") (some .function)⟩,
    ⟨2, "drop#2", none, some 0, .reference 9⟩,
    ⟨3, "drop#3", none, some 0, .wrapper 4 (.required 5) 8 true⟩,
    ⟨4, "drop#4", none, some 3, .token 1 none none⟩,
    ⟨5, "drop#5", none, some 3, .iteration 6 (some 7)⟩,
    ⟨6, "drop#6", none, some 5, .identifier .definition true (some "t")⟩,
    ⟨7, "drop#7", none, some 5, .token 2 none none⟩,
    ⟨8, "drop#8", none, some 3, .token 3 none none⟩,
    ⟨9, "name", some "name", none, .oneOf [.required 10, ⟨15, false, 2⟩] true⟩,
    ⟨10, "name#1", none, some 9, .qualified [[11, 12], [13]] 14⟩,
    ⟨11, "name#2", none, some 10, .identifier .reference false none⟩,
    ⟨12, "name#3", none, some 10, .identifier .reference false (some "t")⟩,
    ⟨13, "name#4", none, some 10, .token 0 none none⟩,
    ⟨14, "name#5", none, some 10, .token 2 none none⟩,
    ⟨15, "name#6", none, some 9, .token 3 none none⟩]
  rules := [("drop", 0), ("name", 9)]
  root := 0

theorem dropRules_retained :
    ofRules drop.vocabulary dropRules none = .ok drop ∧ drop.Retains dropRules := by
  have built : ofRules drop.vocabulary dropRules none = .ok drop := by with_unfolding_all rfl
  exact ⟨built, ofRules_retains built⟩

end Grammar

end Dialect
