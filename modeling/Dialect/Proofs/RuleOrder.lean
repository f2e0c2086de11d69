import Dialect.Proofs.Prediction.Overlaps
import Dialect.Proofs.Renaming.Parse
import Dialect.Proofs.Renaming.Rules

/-!
# The order of rules

The order in which the rules of a dialect are written makes no difference but for the ids of the
elements (`ofRules_perm`): what is known of their first tokens, the order in which alternatives
are tried, what is told of overlaps and all parses are the same but for the ids.
-/

set_option autoImplicit false

namespace Dialect

/-- The overlap with all elements renamed. -/
def Overlap.rename (σ : ElementId → ElementId) (overlap : Overlap) : Overlap :=
  { overlap with element := σ overlap.element, alternatives := overlap.alternatives.map σ }

namespace Grammar

/-- What can be asked of two grammars has the same answers, but for the ids of elements. -/
structure Indistinguishable (σ : Equiv.Perm ElementId) (g h : Grammar) : Prop where
  renamed : g.Renamed σ h
  firsts : ∀ id memo memo', memo.Faithful g → memo'.Faithful h →
    answerWith (h.firsts (σ id)) memo' = answerWith (g.firsts id) memo
  children : ∀ id memo memo', memo.Faithful g → memo'.Faithful h →
    answerWith (h.children (σ id)) memo' =
      (answerWith (g.children id) memo).map (List.map (Slot.rename σ))
  overlaps : ∀ memo memo', memo.Faithful g → memo'.Faithful h → ∃ told told',
    answerWith g.overlaps memo = .ok told ∧ answerWith h.overlaps memo' = .ok told' ∧
      told'.Perm (told.map (Overlap.rename σ))
  parses : ∀ tokens rule options cancelled memo memo', memo.Faithful g → memo'.Faithful h →
    answerWith (h.parse tokens rule options cancelled) memo' =
      (answerWith (g.parse tokens rule options cancelled) memo).map (Except.map (Parse.rename σ))

namespace Renamed

variable {σ : Equiv.Perm ElementId} {g h : Grammar} (renamed : g.Renamed σ h)

include renamed

theorem kind_rename {id : ElementId} {kind : Kind ElementId} (stands : g.kind? id = some kind) :
    h.kind? (σ id) = some (kind.rename σ σ) := by
  obtain ⟨element, found, rfl⟩ := kind?_eq_some.1 stands
  exact kind?_eq_some.2 ⟨_, renamed.elements id element found, rfl⟩

/-- The renaming takes the ids of elements to each other. -/
theorem map_range_perm : ((List.range g.elements.size).map σ).Perm (List.range h.elements.size) := by
  refine (List.perm_ext_iff_of_nodup (List.nodup_range.map σ.injective) List.nodup_range).2
    fun id => ?_
  have inside : σ (σ.symm id) < h.elements.size ↔ σ.symm id < g.elements.size :=
    renamed.image.lt_size_iff
  rw [σ.apply_symm_apply] at inside
  rw [List.mem_map, List.mem_range, inside]
  constructor
  · rintro ⟨other, member, rfl⟩
    rwa [σ.symm_apply_apply, ← List.mem_range]
  · exact fun bound => ⟨_, List.mem_range.2 bound, σ.apply_symm_apply id⟩

omit renamed in
theorem listed_by_id {α : Type} (items : List α) :
    items = (List.range items.length).filterMap fun id => items[id]? := by
  induction items with
  | nil => rfl
  | cons item rest ih =>
      rw [List.length_cons, List.range_succ_eq_map, List.filterMap_cons]
      simpa [List.filterMap_map, Function.comp_def] using ih

/-- The elements are the renamed ones, in another order. -/
theorem elements_perm : h.elements.toList.Perm (g.elements.toList.map (Element.rename σ σ)) := by
  have there := (renamed.map_range_perm.filterMap fun id => h.elements.toList[id]?).symm
  rw [← Array.length_toList, ← listed_by_id h.elements.toList, List.filterMap_map] at there
  refine there.trans (.of_eq ?_)
  conv_rhs => rw [listed_by_id g.elements.toList, List.map_filterMap]
  rw [Array.length_toList]
  refine List.filterMap_congr fun id member => ?_
  have bound : id < g.elements.size := List.mem_range.1 member
  have found : g.elements[id]? = some g.elements[id] := Array.getElem?_eq_getElem bound
  simp only [Function.comp_apply, Array.getElem?_toList, renamed.elements id _ found, found,
    Option.map_some]

/-! ### Predictions -/

variable (wellFormed : g.WellFormed) (wellFormed' : h.WellFormed)

include wellFormed wellFormed'

theorem triedOf_eq (id : ElementId) :
    h.triedOf (σ id) = (g.triedOf id).map (List.map (Slot.rename σ)) := by
  cases stands : g.kind? id with
  | some kind =>
      rw [triedOf_of_kind? stands, triedOf_of_kind? (renamed.kind_rename stands),
        Kind.rename_tried renamed.image wellFormed wellFormed' stands]
      rfl
  | none =>
      have outside : g.elements.size ≤ id := by
        by_contra inside
        rw [kind?_of_lt (Nat.lt_of_not_le inside)] at stands
        cases stands
      unfold triedOf
      rcases renamed.image.element_cases id with ⟨element, element', found, -⟩ | ⟨lost, lost'⟩
      · rw [kind?_of_element found] at stands
        cases stands
      · rw [lost, lost']
        rfl

/-! ### Overlaps -/

/-- **Of the renamed element the same is told.** -/
theorem overlap_rename {id : ElementId} {element : Element ElementId}
    (found : g.elements[id]? = some element) :
    Overlap.of? h (element.rename σ σ) = (Overlap.of? g element).map (Overlap.rename σ) := by
  have stands := kind?_eq_some.2 ⟨element, found, rfl⟩
  obtain ⟨own, name, rule, parent, kind⟩ := element
  unfold Overlap.of?
  cases kind with
  | oneOf alternatives sortable =>
      have sets : (alternatives.map (Slot.rename σ)).map
            (fun slot => FirstSets.ofElement h slot.item) =
          alternatives.map fun slot => FirstSets.ofElement g slot.item := by
        rw [List.map_map]
        refine List.map_congr_left fun slot member => ?_
        exact renamed.image.ofElement_eq wellFormed wellFormed'
          (wellFormed.part_lt_size stands (List.mem_map_of_mem member))
      simp only [Element.rename, Kind.rename]
      rw [sets]
      unfold Overlap.ofChoice?
      dsimp only
      split
      · rfl
      · simp only [Option.map_some, Overlap.rename, List.zipIdx_map, List.filter_map, List.map_map]
        rfl
  | _ => rfl

theorem overlaps_perm : (h.elements.toList.filterMap (Overlap.of? h)).Perm
    ((g.elements.toList.filterMap (Overlap.of? g)).map (Overlap.rename σ)) := by
  refine (renamed.elements_perm.filterMap _).trans (.of_eq ?_)
  rw [List.filterMap_map, List.map_filterMap]
  refine List.filterMap_congr fun element member => ?_
  obtain ⟨id, found⟩ := List.mem_iff_getElem?.1 member
  exact renamed.overlap_rename wellFormed wellFormed' (Array.getElem?_toList ▸ found)

/-! ### Parses -/

theorem orderly (options : Options) (cancelled : Bool) (input : Input) :
    (Mirror.over (g.setting options cancelled) (h.setting options cancelled) σ input).Orderly := by
  have fair : (Mirror.over (g.setting options cancelled) (h.setting options cancelled) σ
      input).Fair :=
    ⟨renamed.image, wellFormed, wellFormed', remembering_reliable wellFormed,
      remembering_reliable wellFormed', rfl, rfl, Mirror.over_inputs _ _ _ _⟩
  refine Mirror.orderly_of_renamed fair (fun id kind stands => renamed.kind_rename stands)
    fun k current slot bound => ?_
  refine Mirror.letsAt_rename fair rfl (fun type => ?_) k current bound
  exact congrArg (fun vocabulary : Vocabulary => vocabulary.has TokenType.isChameleon type)
    renamed.vocabulary_eq

/-- **Renaming is all that tells the grammars apart.** -/
theorem indistinguishable : g.Indistinguishable σ h where
  renamed := renamed
  firsts id memo memo' faithful faithful' := by
    rw [(answers_firsts wellFormed id).answerWith_eq faithful,
      (answers_firsts wellFormed' (σ id)).answerWith_eq faithful',
      renamed.image.firstsOf_eq wellFormed wellFormed']
  children id memo memo' faithful faithful' := by
    rw [(answers_children wellFormed id).answerWith_eq faithful,
      (answers_children wellFormed' (σ id)).answerWith_eq faithful',
      renamed.triedOf_eq wellFormed wellFormed']
  overlaps memo memo' faithful faithful' :=
    ⟨_, _, (answers_overlaps_of wellFormed).answerWith_eq faithful,
      (answers_overlaps_of wellFormed').answerWith_eq faithful',
      renamed.overlaps_perm wellFormed wellFormed'⟩
  parses tokens rule options cancelled memo memo' faithful faithful' :=
    parse_image renamed.image wellFormed wellFormed' renamed.rules renamed.root_eq
      (fun opened _ => renamed.orderly wellFormed wellFormed' options cancelled opened.input)
      rule faithful faithful'

end Renamed

/-- **The order in which rules are written makes no difference.**  With an explicit root the rules
are accepted in every order or in none, and the grammars that are made of them in two orders
differ in the ids of their elements only. -/
theorem ofRules_perm [Alphabet] (vocabulary : Vocabulary) {rules others : List Rule}
    (perm : rules.Perm others) (root : String) :
    ((∃ g, ofRules vocabulary rules (some root) = .ok g) ↔
      ∃ h, ofRules vocabulary others (some root) = .ok h) ∧
    ∀ g h, ofRules vocabulary rules (some root) = .ok g →
      ofRules vocabulary others (some root) = .ok h → ∃ σ, g.Indistinguishable σ h := by
  refine ⟨⟨ofRules_accepts_perm perm, ofRules_accepts_perm perm.symm⟩, fun g h built built' => ?_⟩
  obtain ⟨σ, renamed⟩ := ofRules_renamed perm built built'
  exact ⟨σ, renamed.indistinguishable (ofRules_wellFormed built) (ofRules_wellFormed built')⟩

/-- A rule that refers to the one behind it. -/
def entryRules : List Rule :=
  [⟨"entry", .sequence [.required (.reference "name"), .required (.token "A" none none)]⟩,
    ⟨"name", .token "B" none none⟩]

/-- The grammar of the rules in this order. -/
def entryFirst : Grammar where
  vocabulary := ⟨"test", #[.keyword "A" "a", .keyword "B" "b"]⟩
  elements := #[
    ⟨0, "entry", some "entry", none, .sequence [.required 1, .required 2]⟩,
    ⟨1, "entry#1", none, some 0, .reference 3⟩,
    ⟨2, "entry#2", none, some 0, .token 0 none none⟩,
    ⟨3, "name", some "name", none, .token 1 none none⟩]
  rules := [("entry", 0), ("name", 3)]
  root := 0

/-- The grammar of the rules the other way round. -/
def entryLast : Grammar where
  vocabulary := entryFirst.vocabulary
  elements := #[
    ⟨0, "name", some "name", none, .token 1 none none⟩,
    ⟨1, "entry", some "entry", none, .sequence [.required 2, .required 3]⟩,
    ⟨2, "entry#1", none, some 1, .reference 0⟩,
    ⟨3, "entry#2", none, some 1, .token 0 none none⟩]
  rules := [("name", 0), ("entry", 1)]
  root := 1

/-- It makes no difference which of the two rules is written first. -/
theorem entryRules_indistinguishable :
    entryRules.Perm entryRules.reverse ∧
      ofRules entryFirst.vocabulary entryRules (some "entry") = .ok entryFirst ∧
      ofRules entryFirst.vocabulary entryRules.reverse (some "entry") = .ok entryLast ∧
      ∃ σ, entryFirst.Indistinguishable σ entryLast := by
  have perm : entryRules.Perm entryRules.reverse := (List.reverse_perm entryRules).symm
  have built : ofRules entryFirst.vocabulary entryRules (some "entry") = .ok entryFirst := by
    with_unfolding_all rfl
  have built' : ofRules entryFirst.vocabulary entryRules.reverse (some "entry") = .ok entryLast := by
    with_unfolding_all rfl
  exact ⟨perm, built, built', (ofRules_perm _ perm "entry").2 _ _ built built'⟩

end Grammar

end Dialect
