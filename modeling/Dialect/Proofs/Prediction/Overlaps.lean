import Dialect.Prediction.Overlap
import Dialect.Proofs.Prediction.Answers

/-!
# What is told of overlaps

Comparing the alternatives of a choice in pairs finds every conflict and nothing else
(`compareAll_collects`), so a choice is told of exactly if two of its alternatives share a token
type on account of which they overlap (`compareAll_places_eq_nil`).  What is told of a grammar
follows from its first sets (`answers_overlaps_of`).
-/

set_option autoImplicit false

namespace Dialect

/-- The members of a set are listed in ascending order, each once. -/
theorem TokenSet.toList_ascending (s : TokenSet) : s.toList.Pairwise (· < ·) :=
  List.pairwise_lt_range.filter _

namespace Overlap

variable {sortable : Bool} {i j : Nat} {own : FirstSets} {sets : List FirstSets}

/-- A pair of alternatives overlaps on account of the token types with which both may begin,
unless they are told apart by their shape. -/
theorem mem_shared {earlier own : FirstSets} {t : TokenTypeId} :
    t ∈ shared sortable earlier own ↔ t ∈ earlier.possible ∧ t ∈ own.possible ∧
      ¬ (sortable = true ∧ earlier.identifierShaped ≠ own.identifierShaped) := by
  unfold shared
  split
  · rename_i apart
    simpa using fun _ _ => by simpa using apart
  · rename_i alike
    simpa using fun _ _ => by simpa using alike

/-- The alternatives at two places conflict over a token type: both may begin with it, and they
are not told apart by their shape. -/
def Conflict (sortable : Bool) (sets : List FirstSets) (i j : Nat) (t : TokenTypeId) : Prop :=
  i < j ∧ ∃ earlier own, sets[i]? = some earlier ∧ sets[j]? = some own ∧
    t ∈ earlier.possible ∧ t ∈ own.possible ∧
      ¬ (sortable = true ∧ earlier.identifierShaped ≠ own.identifierShaped)

/-- Of the given conflicts, the places and the token types have been found, and no others. -/
structure Collects {ι : Type} (conflicts : ι → ι → TokenTypeId → Prop) (places : List ι)
    (tokens : TokenTypeId → Prop) : Prop where
  places : ∀ place, place ∈ places ↔ ∃ i j t, conflicts i j t ∧ (place = i ∨ place = j)
  tokens : ∀ t, tokens t ↔ ∃ i j, conflicts i j t

theorem Collects.congr {ι : Type} {conflicts conflicts' : ι → ι → TokenTypeId → Prop}
    {places : List ι} {tokens : TokenTypeId → Prop} (collects : Collects conflicts places tokens)
    (same : ∀ i j t, conflicts i j t ↔ conflicts' i j t) : Collects conflicts' places tokens := by
  obtain rfl : conflicts = conflicts' := by
    funext i j t
    exact propext (same i j t)
  exact collects

section Findings

variable {findings : Findings} {conflicts : Nat → Nat → TokenTypeId → Prop}

/-- One more pair of alternatives adds what it overlaps on account of. -/
theorem add_collects {common : TokenSet}
    (collects : Collects conflicts findings.places (· ∈ findings.tokens)) :
    Collects (fun a b t => conflicts a b t ∨ a = i ∧ b = j ∧ t ∈ common)
      (findings.add i j common).places (· ∈ (findings.add i j common).tokens) := by
  unfold Findings.add
  split
  · -- Pairs that share nothing are not recorded.
    rename_i nothing
    exact collects.congr fun a b t => by simp [TokenSet.isEmpty_iff.1 nothing t]
  · rename_i something
    obtain ⟨witness, member⟩ : ∃ t, t ∈ common := by
      by_contra none
      exact something (TokenSet.isEmpty_iff.2 fun t member => none ⟨t, member⟩)
    refine ⟨fun place => ?_, fun t => ?_⟩
    · simp only [List.mem_cons, collects.places]
      constructor
      · rintro (rfl | rfl | ⟨a, b, t, among, at_⟩)
        · exact ⟨place, j, witness, .inr ⟨rfl, rfl, member⟩, .inl rfl⟩
        · exact ⟨i, place, witness, .inr ⟨rfl, rfl, member⟩, .inr rfl⟩
        · exact ⟨a, b, t, .inl among, at_⟩
      · rintro ⟨a, b, t, among | ⟨rfl, rfl, -⟩, at_⟩
        · exact .inr (.inr ⟨a, b, t, among, at_⟩)
        · exact at_.imp_right .inl
    · simp only [TokenSet.mem_union, collects.tokens]
      constructor
      · rintro (⟨a, b, among⟩ | inCommon)
        · exact ⟨a, b, .inl among⟩
        · exact ⟨i, j, .inr ⟨rfl, rfl, inCommon⟩⟩
      · rintro ⟨a, b, among | ⟨-, -, inCommon⟩⟩
        · exact .inl ⟨a, b, among⟩
        · exact .inr inCommon

/-- Comparing an alternative with earlier ones adds its conflicts with these. -/
theorem compareEarlier_collects
    (collects : Collects conflicts findings.places (· ∈ findings.tokens)) :
    Collects
      (fun a b t => conflicts a b t ∨
        b = j ∧ ∃ k earlier, a = i + k ∧ sets[k]? = some earlier ∧ t ∈ shared sortable earlier own)
      (compareEarlier sortable j own i sets findings).places
      (· ∈ (compareEarlier sortable j own i sets findings).tokens) := by
  induction sets generalizing i findings conflicts with
  | nil => exact collects.congr fun a b t => by simp
  | cons earlier rest ih =>
      refine (ih (add_collects collects)).congr fun a b t => ?_
      constructor
      · rintro ((among | ⟨rfl, rfl, inCommon⟩) | ⟨rfl, k, other, rfl, found, inCommon⟩)
        · exact .inl among
        · exact .inr ⟨rfl, 0, earlier, rfl, rfl, inCommon⟩
        · exact .inr ⟨rfl, k + 1, other, by omega, found, inCommon⟩
      · rintro (among | ⟨rfl, _ | k, other, rfl, found, inCommon⟩)
        · exact .inl (.inl among)
        · obtain rfl := Option.some.inj found
          exact .inl (.inr ⟨rfl, rfl, inCommon⟩)
        · exact .inr ⟨rfl, k, other, by omega, found, inCommon⟩

/-- Comparing one alternative after the other with those before it adds the conflicts of each. -/
theorem foldl_collects (rest : List (FirstSets × Nat))
    (collects : Collects conflicts findings.places (· ∈ findings.tokens)) :
    let last := rest.foldl (fun findings entry =>
      compareEarlier sortable entry.2 entry.1 0 (sets.take entry.2) findings) findings
    Collects (fun a b t => conflicts a b t ∨ ∃ own, (own, b) ∈ rest ∧ ∃ earlier,
        (sets.take b)[a]? = some earlier ∧ t ∈ shared sortable earlier own)
      last.places (· ∈ last.tokens) := by
  induction rest generalizing findings conflicts with
  | nil => exact collects.congr fun a b t => by simp
  | cons entry rest ih =>
      obtain ⟨own, j⟩ := entry
      refine (ih (compareEarlier_collects collects)).congr fun a b t => ?_
      simp only [List.mem_cons, Prod.mk.injEq, Nat.zero_add]
      constructor
      · rintro ((among | ⟨rfl, k, earlier, rfl, found, inCommon⟩) | ⟨other, member, more⟩)
        · exact .inl among
        · exact .inr ⟨own, .inl ⟨rfl, rfl⟩, earlier, found, inCommon⟩
        · exact .inr ⟨other, .inr member, more⟩
      · rintro (among | ⟨other, ⟨rfl, rfl⟩ | member, earlier, found, inCommon⟩)
        · exact .inl (.inl among)
        · exact .inl (.inr ⟨rfl, a, earlier, rfl, found, inCommon⟩)
        · exact .inr ⟨other, member, earlier, found, inCommon⟩

/-- **Comparing every alternative with all before it finds every conflict, and nothing else.** -/
theorem compareAll_collects (sortable : Bool) (sets : List FirstSets) :
    Collects (Conflict sortable sets) (compareAll sortable sets).places
      (· ∈ (compareAll sortable sets).tokens) := by
  have nothing : Collects (fun _ _ _ => False) ([] : List Nat) (· ∈ (∅ : TokenSet)) :=
    ⟨by simp, by simp⟩
  refine (foldl_collects sets.zipIdx nothing).congr fun a b t => ?_
  simp only [false_or, List.mk_mem_zipIdx_iff_getElem?, mem_shared, List.getElem?_take]
  constructor
  · rintro ⟨own, there, earlier, found, inCommon⟩
    split at found
    · exact ⟨‹a < b›, earlier, own, found, there, inCommon⟩
    · cases found
  · rintro ⟨before, earlier, own, found, there, inCommon⟩
    exact ⟨own, there, earlier, (if_pos before).trans found, inCommon⟩

end Findings

/-- **Nothing is found exactly if no two alternatives share anything.** -/
theorem compareAll_places_eq_nil :
    (compareAll sortable sets).places = [] ↔
      sets.Pairwise fun earlier own => (shared sortable earlier own).isEmpty = true := by
  have collects := compareAll_collects sortable sets
  rw [List.pairwise_iff_getElem, List.eq_nil_iff_forall_not_mem]
  constructor
  · intro nothing i j inside bound before
    refine TokenSet.isEmpty_iff.2 fun t inCommon => nothing i ((collects.places i).2 ?_)
    exact ⟨i, j, t, ⟨before, _, _, List.getElem?_eq_getElem inside, List.getElem?_eq_getElem bound,
      mem_shared.1 inCommon⟩, .inl rfl⟩
  · intro apart place member
    obtain ⟨i, j, t, ⟨before, earlier, own, found, there, inCommon⟩, -⟩ :=
      (collects.places place).1 member
    obtain ⟨inside, rfl⟩ := List.getElem?_eq_some_iff.1 found
    obtain ⟨bound, rfl⟩ := List.getElem?_eq_some_iff.1 there
    exact TokenSet.isEmpty_iff.1 (apart i j inside bound before) t (mem_shared.2 inCommon)

/-- What is told of a choice with the given first sets of its alternatives. -/
def ofChoice? (element : Element ElementId) (alternatives : List (Slot ElementId))
    (sortable : Bool) (sets : List FirstSets) : Option Overlap :=
  let findings := compareAll sortable sets
  if findings.places.isEmpty then none
  else some {
    element := element.id
    name := element.name
    alternatives := (alternatives.zipIdx.filter fun (_, i) => i ∈ findings.places).map
      fun (slot, _) => slot.item
    tokens := findings.tokens.toList }

/-- The first sets of the alternatives of a choice, in the order of declaration. -/
abbrev setsOf (g : Grammar) (alternatives : List (Slot ElementId)) : List FirstSets :=
  alternatives.map fun slot => FirstSets.ofElement g slot.item

/-- What is told of an element of the grammar. -/
def of? (g : Grammar) (element : Element ElementId) : Option Overlap :=
  match element.kind with
  | .oneOf alternatives sortable =>
      ofChoice? element alternatives sortable
        (alternatives.map fun slot => FirstSets.ofElement g slot.item)
  | _ => none

end Overlap

section Answers

variable {g : Grammar} (wellFormed : g.WellFormed)

include wellFormed

theorem answers_overlap_of {id : ElementId} {element : Element ElementId}
    (found : g.elements[id]? = some element) :
    Answers g (g.overlap? element) (.ok (Overlap.of? g element)) := by
  have stands := Grammar.kind?_eq_some.2 ⟨element, found, rfl⟩
  unfold Grammar.overlap? Overlap.of?
  cases kind : element.kind with
  | oneOf alternatives sortable =>
      rw [kind] at stands
      have each : ∀ slot ∈ alternatives,
          Answers g (g.firsts slot.item) (pure (FirstSets.ofElement g slot.item)) := by
        intro slot member
        have answers := answers_firsts wellFormed slot.item
        rwa [Grammar.firstsOf_of_lt
          (wellFormed.part_lt_size stands (List.mem_map_of_mem member))] at answers
      have sets := answers_mapM each
      rw [List.mapM_pure] at sets
      -- Once the sets are there, the comparison remembers nothing.
      have told : ∀ sets : List FirstSets,
          Answers g (do
              let findings := Overlap.compareAll sortable sets
              if findings.places.isEmpty then return none
              return some {
                element := element.id
                name := element.name
                alternatives := (alternatives.zipIdx.filter fun (_, i) => i ∈ findings.places).map
                  fun (slot, _) => slot.item
                tokens := findings.tokens.toList })
            (.ok (Overlap.ofChoice? element alternatives sortable sets)) := by
        intro sets
        unfold Overlap.ofChoice?
        dsimp only
        split
        · exact answers_pure _
        · exact answers_pure _
      exact answers_bind sets told
  | _ => exact answers_pure _

/-- **What is told of a grammar follows from its first sets.** -/
theorem answers_overlaps_of :
    Answers g g.overlaps (.ok (g.elements.toList.filterMap (Overlap.of? g))) := by
  have each : ∀ element ∈ g.elements.toList,
      Answers g (g.overlap? element) (pure (Overlap.of? g element)) := by
    intro element member
    obtain ⟨id, found⟩ := List.mem_iff_getElem?.1 member
    exact answers_overlap_of wellFormed (Array.getElem?_toList ▸ found)
  have all := answers_mapM each
  rw [List.mapM_pure] at all
  have told := answers_bind all fun told => answers_pure (told.filterMap id)
  simp only [pure, Except.pure, bind, Except.bind, List.filterMap_map] at told
  exact told

end Answers

end Dialect
