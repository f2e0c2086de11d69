import Dialect.Proofs.Grammar.Retrieval
import Dialect.Proofs.Prediction.SinglePass

/-!
# What the author of a grammar is told

The author of a grammar is told of the choices with conflicting alternatives and of no others,
once each and in the order of the elements.  With each choice the author learns which alternatives
take part in some conflict, in the order of declaration, and over which token types, in ascending
order (`overlaps_exact`).

A conflict is one of two alternatives over one token type.  A pair that is told apart by its shape
is in no conflict, but either of the two may be in conflict with a third over the same type.
-/

set_option autoImplicit false

namespace Dialect

open Overlap

/-- What is told of a choice: the alternatives that take part in some conflict, in the order of
declaration, and the token types of all conflicts, in ascending order. -/
structure Overlap.Exact (g : Grammar) (alternatives : List (Slot ElementId)) (sortable : Bool)
    (overlap : Overlap) : Prop where
  inOrder : overlap.alternatives.Sublist (alternatives.map Slot.item)
  once : overlap.alternatives.Nodup
  involved : ∀ item, item ∈ overlap.alternatives ↔ ∃ (place : Nat) (slot : Slot ElementId),
    alternatives[place]? = some slot ∧ slot.item = item ∧
      ∃ i j t, Conflict sortable (setsOf g alternatives) i j t ∧ (place = i ∨ place = j)
  ascending : overlap.tokens.Pairwise (· < ·)
  shared : ∀ t, t ∈ overlap.tokens ↔ ∃ i j, Conflict sortable (setsOf g alternatives) i j t

section Choices

variable {g : Grammar} {element : Element ElementId} {alternatives : List (Slot ElementId)}
  {sortable : Bool}

/-- Alternatives that are picked by their places are told of in the order of declaration. -/
theorem picked_sublist (alternatives : List (Slot ElementId)) (picks : Slot ElementId × Nat → Bool) :
    ((alternatives.zipIdx.filter picks).map fun entry => entry.1.item).Sublist
      (alternatives.map Slot.item) := by
  have all : alternatives.zipIdx.map (fun entry => entry.1.item) = alternatives.map Slot.item := by
    show alternatives.zipIdx.map (Slot.item ∘ Prod.fst) = _
    rw [← List.map_map, List.zipIdx_map_fst]
  rw [← all]
  exact List.filter_sublist.map _

/-- A choice is told of if it has a conflict, and then exactly. -/
theorem ofChoice?_eq_some {overlap : Overlap} (distinct : (alternatives.map Slot.item).Nodup)
    (told : ofChoice? element alternatives sortable (setsOf g alternatives) = some overlap) :
    overlap.element = element.id ∧ overlap.name = element.name ∧
      overlap.Exact g alternatives sortable := by
  have collects := compareAll_collects sortable (setsOf g alternatives)
  unfold ofChoice? at told
  dsimp only at told
  split at told
  · cases told
  · obtain rfl := Option.some.inj told
    have inOrder := picked_sublist alternatives fun entry =>
      decide (entry.2 ∈ (compareAll sortable (setsOf g alternatives)).places)
    refine ⟨rfl, rfl, inOrder, distinct.sublist inOrder, fun item => ?_,
      TokenSet.toList_ascending _, fun t => TokenSet.mem_toList.trans (collects.tokens t)⟩
    simp only [List.mem_map, List.mem_filter, Prod.exists, List.mk_mem_zipIdx_iff_getElem?,
      decide_eq_true_eq, collects.places]
    constructor
    · rintro ⟨slot, place, ⟨stands, conflicts⟩, rfl⟩
      exact ⟨place, slot, stands, rfl, conflicts⟩
    · rintro ⟨place, slot, stands, rfl, conflicts⟩
      exact ⟨slot, place, ⟨stands, conflicts⟩, rfl⟩

/-- A choice is told of exactly if it has a conflict. -/
theorem ofChoice?_isSome (element : Element ElementId) :
    (ofChoice? element alternatives sortable (setsOf g alternatives)).isSome = true ↔
      ∃ i j t, Conflict sortable (setsOf g alternatives) i j t := by
  have collects := compareAll_collects sortable (setsOf g alternatives)
  unfold ofChoice?
  dsimp only
  split
  · rename_i empty
    rw [List.isEmpty_iff] at empty
    refine ⟨nofun, ?_⟩
    rintro ⟨i, j, t, conflict⟩
    have member := (collects.places i).2 ⟨i, j, t, conflict, .inl rfl⟩
    rw [empty] at member
    cases member
  · rename_i some
    refine ⟨fun _ => ?_, fun _ => rfl⟩
    obtain ⟨place, member⟩ := List.exists_mem_of_ne_nil _ (mt List.isEmpty_iff.2 some)
    obtain ⟨i, j, t, conflict, -⟩ := (collects.places place).1 member
    exact ⟨i, j, t, conflict⟩

end Choices

section Told

variable [Alphabet] {vocabulary : Vocabulary} {rules : List Rule} {root : Option String}
  {g : Grammar}
  (built : Grammar.ofRules vocabulary rules root = .ok g)

include built

/-- No element stands in two slots of a choice. -/
theorem distinct_of_ofRules {id : ElementId} {alternatives : List (Slot ElementId)}
    {sortable : Bool} (stands : g.kind? id = some (.oneOf alternatives sortable)) :
    (alternatives.map Slot.item).Nodup := by
  have ascending := (Grammar.contentsAt_ascending built id).1
  obtain ⟨element, found, kind⟩ := Grammar.kind?_eq_some.1 stands
  have contents : g.contentsAt id = alternatives.map Slot.item := by
    simp [Grammar.contentsAt, Grammar.outline, found, Element.outline, kind, Kind.contents]
  rw [contents] at ascending
  exact ascending.nodup

/-- What is told of an element is told under its id and its name, and exactly. -/
theorem exact_of_told {id : ElementId} {element : Element ElementId} {overlap : Overlap}
    (found : g.elements[id]? = some element) (told : Overlap.of? g element = some overlap) :
    overlap.element = id ∧ overlap.name = element.name ∧
      ∃ alternatives sortable, element.kind = .oneOf alternatives sortable ∧
        overlap.Exact g alternatives sortable := by
  have id_eq := Grammar.id_eq_of_ofRules built found
  unfold Overlap.of? at told
  split at told
  · rename_i alternatives sortable kind
    have stands : g.kind? id = some (.oneOf alternatives sortable) :=
      Grammar.kind?_eq_some.2 ⟨element, found, kind⟩
    obtain ⟨own, named, exact_⟩ := ofChoice?_eq_some (distinct_of_ofRules built stands) told
    exact ⟨own.trans id_eq, named, alternatives, sortable, kind, exact_⟩
  · cases told

/-- **The author is told of every conflict, and of nothing else.**  Whether alternatives are
compared in pairs or in one pass, one finds the choices with some conflict, in the order of the
elements, and of each the alternatives and token types that are in conflict. -/
theorem overlaps_exact : ∃ told,
    Answers g g.overlaps (.ok told) ∧ Answers g (SinglePass.detect g) (.ok told) ∧
      (told.map Overlap.element).Pairwise (· < ·) ∧
      (∀ id, id ∈ told.map Overlap.element ↔ ∃ alternatives sortable,
        g.kind? id = some (.oneOf alternatives sortable) ∧
          ∃ i j t, Conflict sortable (setsOf g alternatives) i j t) ∧
      ∀ overlap ∈ told, ∃ element alternatives sortable,
        g.elements[overlap.element]? = some element ∧ overlap.name = element.name ∧
          element.kind = .oneOf alternatives sortable ∧ overlap.Exact g alternatives sortable := by
  have wellFormed := Grammar.ofRules_wellFormed built
  refine ⟨_, answers_overlaps_of wellFormed, SinglePass.answers_detect wellFormed, ?_, ?_, ?_⟩
  · rw [List.pairwise_map, List.pairwise_filterMap, List.pairwise_iff_getElem]
    intro i j inside bound before first toldFirst second toldSecond
    -- Elements are asked in the order of their ids, and each report names the one it is about.
    have foundFirst : g.elements[i]? = some g.elements.toList[i] := by
      simp
    have foundSecond : g.elements[j]? = some g.elements.toList[j] := by
      simp
    rw [(exact_of_told built foundFirst toldFirst).1, (exact_of_told built foundSecond toldSecond).1]
    exact before
  · intro id
    simp only [List.mem_map, List.mem_filterMap]
    constructor
    · rintro ⟨overlap, ⟨element, member, told⟩, rfl⟩
      obtain ⟨id, found⟩ := List.mem_iff_getElem?.1 member
      replace found : g.elements[id]? = some element := Array.getElem?_toList ▸ found
      obtain ⟨own, -, alternatives, sortable, kind, -⟩ := exact_of_told built found told
      refine ⟨alternatives, sortable, own ▸ Grammar.kind?_eq_some.2 ⟨element, found, kind⟩, ?_⟩
      unfold Overlap.of? at told
      rw [kind] at told
      exact (ofChoice?_isSome element).1 (Option.isSome_of_eq_some told)
    · rintro ⟨alternatives, sortable, stands, conflict⟩
      obtain ⟨element, found, kind⟩ := Grammar.kind?_eq_some.1 stands
      obtain ⟨overlap, told⟩ := Option.isSome_iff_exists.1
        ((ofChoice?_isSome element).2 conflict)
      have told : Overlap.of? g element = some overlap := by
        unfold Overlap.of?
        rw [kind]
        exact told
      have member : element ∈ g.elements.toList :=
        List.mem_iff_getElem?.2 ⟨id, Array.getElem?_toList ▸ found⟩
      exact ⟨overlap, ⟨element, member, told⟩, (exact_of_told built found told).1⟩
  · intro overlap member
    obtain ⟨element, among, told⟩ := List.mem_filterMap.1 member
    obtain ⟨id, found⟩ := List.mem_iff_getElem?.1 among
    replace found : g.elements[id]? = some element := Array.getElem?_toList ▸ found
    obtain ⟨own, named, alternatives, sortable, kind, exact_⟩ := exact_of_told built found told
    exact ⟨element, alternatives, sortable, own ▸ found, named, kind, exact_⟩

end Told

/-- A word, the word or a name, and the word once more. -/
def twiceRules : List Rule :=
  [⟨"r", .oneOf [
    .required (.token "A" none none),
    .required (.oneOf [
      .required (.token "A" none none), .required (.identifier .reference false none)] false),
    .required (.token "A" none none)] true⟩]

/-- The grammar of that rule. -/
def twice : Grammar where
  vocabulary := ⟨"test", #[.keyword "A" "a", ⟨"NAME", none, .identifier, false⟩]⟩
  elements := #[
    ⟨0, "r", some "r", none, .oneOf [.required 1, .required 2, .required 5] true⟩,
    ⟨1, "r#1", none, some 0, .token 0 none none⟩,
    ⟨2, "r#2", none, some 0, .oneOf [.required 3, .required 4] false⟩,
    ⟨3, "r#3", none, some 2, .token 0 none none⟩,
    ⟨4, "r#4", none, some 2, .identifier .reference false none⟩,
    ⟨5, "r#5", none, some 0, .token 0 none none⟩]
  rules := [("r", 0)]
  root := 0

theorem twice_built : Grammar.ofRules twice.vocabulary twiceRules none = .ok twice := by
  with_unfolding_all rfl

/-- The word stands twice, so the author is told of it, although the sorting settles which of the
two comes before the choice in the middle, which may begin with the same word. -/
theorem twice_overlaps_exact :
    Grammar.ofRules twice.vocabulary twiceRules none = .ok twice ∧
      ∃ told, told = [⟨0, "r", [1, 5], [0]⟩] ∧ Answers twice twice.overlaps (.ok told) ∧
        Answers twice (SinglePass.detect twice) (.ok told) ∧
        ∀ overlap ∈ told, ∃ element alternatives sortable,
          twice.elements[overlap.element]? = some element ∧ overlap.name = element.name ∧
            element.kind = .oneOf alternatives sortable ∧
              overlap.Exact twice alternatives sortable := by
  obtain ⟨told, pairs, single, -, -, each⟩ := overlaps_exact twice_built
  have answer : answerWith twice.overlaps twice.blankMemo = .ok [⟨0, "r", [1, 5], [0]⟩] := by
    decide +kernel
  have same := (pairs.answerWith_eq (Memo.blank_faithful twice)).symm.trans answer
  exact ⟨twice_built, told, Except.ok.inj same, pairs, single, each⟩

end Dialect
