import Dialect.Proofs.Prediction.FirstSets

/-!
# First sets by plain recursion

What the first sets of an element are, said without a memo and without anything that keeps
a recursion from going round: the possible tokens are those of the leaves that can be
entered first, and the other two sets are found by recursion along what an element begins
with (`Requires`, `Shaped`).  That the recursion ends is part of what is said.

In an accepted grammar every element has such first sets (`plain_ofElement`) and no others
(`Plain.unique`).
-/

set_option autoImplicit false

namespace Dialect

/-- The elements on which it depends with what every match of this kind begins. -/
def Kind.anchors : Kind ElementId → List ElementId
  | .token .. | .identifier .. => []
  | .sequence [] => []
  | .sequence (slot :: _) => if slot.optional then [] else [slot.item]
  | .wrapper opening _ _ repeated => if repeated then [] else [opening]
  | .oneOf alternatives _ => alternatives.map Slot.item
  | .iteration item _ => [item]
  | .qualified variants _ => variants.filterMap List.head?
  | .reference target => [target]

theorem Kind.mem_entries_of_mem_anchors {kind : Kind ElementId} {id : ElementId}
    (anchor : id ∈ kind.anchors) : id ∈ kind.entries := by
  cases kind with
  | sequence slots =>
      cases slots with
      | nil => exact absurd anchor List.not_mem_nil
      | cons slot rest =>
          by_cases optional : slot.optional = true
          · simp [anchors, optional] at anchor
          · obtain rfl : id = slot.item := by simpa [anchors, optional] using anchor
            exact List.mem_cons_self
  | wrapper opening content closing repeated =>
      cases repeated with
      | false => exact anchor
      | true => exact absurd anchor List.not_mem_nil
  | _ => exact anchor

namespace FirstSets

open Relation

variable {g : Grammar}

/-- What some sets have in common; nothing if there are none. -/
def common : List TokenSet → TokenSet
  | [] => ∅
  | [set] => set
  | set :: rest => set ∩ common rest

/-- What an element of the kind requires, given what those below it require. -/
def requiredBy (below : ElementId → TokenSet) : Kind ElementId → TokenSet
  | .token type .. => .singleton type
  | kind => common (kind.anchors.map below)

/-- Whether an element of the kind may begin with an identifier, given whether those below it
may. -/
def shapedBy (vocabulary : Vocabulary) (below : ElementId → Bool) : Kind ElementId → Bool
  | .token type .. => vocabulary.has TokenType.isIdentifier type
  | .identifier .. => true
  | kind => kind.entries.any below

/-- Plain recursion along the anchors ends, and gives the set as what is required. -/
inductive Requires (g : Grammar) : ElementId → TokenSet → Prop
  | step {id : ElementId} {kind : Kind ElementId} {below : ElementId → TokenSet}
      (stands : g.kind? id = some kind) (each : ∀ y ∈ kind.anchors, Requires g y (below y)) :
      Requires g id (requiredBy below kind)

/-- Plain recursion along the entries ends, and gives the answer to whether the element may
begin with an identifier. -/
inductive Shaped (g : Grammar) : ElementId → Bool → Prop
  | step {id : ElementId} {kind : Kind ElementId} {below : ElementId → Bool}
      (stands : g.kind? id = some kind) (each : ∀ y ∈ kind.entries, Shaped g y (below y)) :
      Shaped g id (shapedBy g.vocabulary below kind)

/-- The first sets of an element by plain recursion. -/
structure Plain (g : Grammar) (id : ElementId) (sets : FirstSets) : Prop where
  /-- A leaf that can be entered first takes the token. -/
  possible : ∀ t, t ∈ sets.possible ↔
    ∃ leaf, ReflTransGen g.Enters id leaf ∧ t ∈ ownTokens g leaf
  required : Requires g id sets.required
  shape : Shaped g id sets.identifierShaped

/-! ### There are no others -/

theorem requiredBy_congr {below below' : ElementId → TokenSet} {kind : Kind ElementId}
    (same : ∀ y ∈ kind.anchors, below y = below' y) :
    requiredBy below kind = requiredBy below' kind := by
  cases kind with
  | token type text flavor => rfl
  | _ => exact congrArg common (List.map_congr_left same)

theorem shapedBy_congr {vocabulary : Vocabulary} {below below' : ElementId → Bool}
    {kind : Kind ElementId} (same : ∀ y ∈ kind.entries, below y = below' y) :
    shapedBy vocabulary below kind = shapedBy vocabulary below' kind := by
  have any : kind.entries.any below = kind.entries.any below' := by
    rw [Bool.eq_iff_iff, List.any_eq_true, List.any_eq_true]
    exact exists_congr fun y => and_congr_right fun member => by rw [same y member]
  cases kind with
  | token type text flavor => rfl
  | identifier use isAlias object => rfl
  | _ => exact any

theorem Requires.unique {id : ElementId} {set other : TokenSet} (first : Requires g id set)
    (second : Requires g id other) : set = other := by
  induction first generalizing other with
  | step stands each ih =>
      cases second with
      | step standsToo eachToo =>
          obtain rfl := Option.some.inj (stands.symm.trans standsToo)
          exact requiredBy_congr fun y anchor => ih y anchor (eachToo y anchor)

theorem Shaped.unique {id : ElementId} {shaped other : Bool} (first : Shaped g id shaped)
    (second : Shaped g id other) : shaped = other := by
  induction first generalizing other with
  | step stands each ih =>
      cases second with
      | step standsToo eachToo =>
          obtain rfl := Option.some.inj (stands.symm.trans standsToo)
          exact shapedBy_congr fun y entry => ih y entry (eachToo y entry)

/-- **Plain recursion gives one answer.** -/
theorem Plain.unique {id : ElementId} {sets other : FirstSets} (first : Plain g id sets)
    (second : Plain g id other) : sets = other := by
  have possible : sets.possible = other.possible :=
    TokenSet.ext fun t => (first.possible t).trans (second.possible t).symm
  have required := first.required.unique second.required
  have shape := first.shape.unique second.shape
  cases sets
  cases other
  simp only at possible required shape
  rw [possible, required, shape]

/-! ### One step at a time -/

theorem mem_common {set : TokenSet} {sets : List TokenSet} {t : TokenTypeId} :
    t ∈ common (set :: sets) ↔ t ∈ set ∧ ∀ other ∈ sets, t ∈ other := by
  induction sets generalizing set with
  | nil => simp [common]
  | cons next rest ih => simp [common, ih]

/-- Nothing is missed by stopping as soon as nothing is left. -/
theorem meet_eq_common (f : ElementId → TokenSet) (ids : List ElementId) :
    meet f ids = common (ids.map f) := by
  induction ids with
  | nil => rfl
  | cons id rest ih =>
      cases rest with
      | nil => rfl
      | cons next others =>
          by_cases nothing : (f id).isEmpty = true
          · have met : meet f (id :: next :: others) = ∅ := by simp only [meet, nothing, if_true]
            apply TokenSet.ext
            intro t
            simp [met, mem_common, TokenSet.isEmpty_iff.1 nothing t]
          · simp only [meet, nothing, Bool.false_eq_true, if_false, ih]
            rfl

section WellFormed

variable (wellFormed : g.WellFormed) {id : ElementId} {kind : Kind ElementId}
  (stands : g.kind? id = some kind)

include wellFormed stands

/-- What is found below an element is found at it or below one of its entries. -/
theorem exists_below_iff {own : ElementId → Prop} :
    (∃ z, z < g.elements.size ∧ ReflTransGen g.Enters id z ∧ own z) ↔
      own id ∨ ∃ y ∈ kind.entries, y < g.elements.size ∧
        ∃ z, z < g.elements.size ∧ ReflTransGen g.Enters y z ∧ own z := by
  have bound := Grammar.lt_of_kind?_eq_some stands
  constructor
  · rintro ⟨z, inside, path, found⟩
    rcases ReflTransGen.cases_head path with rfl | ⟨y, first, further⟩
    · exact Or.inl found
    · obtain ⟨other, standsToo, entry⟩ := Grammar.enters_iff.1 first
      obtain rfl := Option.some.inj (stands.symm.trans standsToo)
      exact Or.inr ⟨y, entry, wellFormed.enters_lt_size first, z, inside, further, found⟩
  · rintro (found | ⟨y, entry, -, z, inside, further, found⟩)
    · exact ⟨id, bound, .refl, found⟩
    · exact ⟨z, inside, further.head (Grammar.enters_iff.2 ⟨kind, stands, entry⟩), found⟩

/-- A token may come first if the element takes it itself or may be entered through one that
it may begin. -/
theorem mem_possible_iff {t : TokenTypeId} :
    t ∈ (ofElement g id).possible ↔
      t ∈ ownTokens g id ∨ ∃ y ∈ kind.entries, t ∈ (ofElement g y).possible := by
  rw [mem_possible_ofElement wellFormed (Grammar.lt_of_kind?_eq_some stands),
    exists_below_iff wellFormed stands]
  refine or_congr_right (exists_congr fun y => and_congr_right fun entry => ?_)
  have inside := wellFormed.enters_lt_size (Grammar.enters_iff.2 ⟨kind, stands, entry⟩)
  rw [mem_possible_ofElement wellFormed inside, and_iff_right inside]

/-- What an element requires follows from what its anchors require. -/
theorem required_ofElement :
    (ofElement g id).required = requiredBy (fun y => (ofElement g y).required) kind := by
  have bound := Grammar.lt_of_kind?_eq_some stands
  obtain ⟨less, size_eq⟩ : ∃ less, g.elements.size = less + 1 :=
    ⟨g.elements.size - 1, (Nat.sub_add_cancel (Nat.lt_of_le_of_lt (Nat.zero_le _) bound)).symm⟩
  have low := wellFormed.height_lt_size bound
  -- What is entered is lower, so one level less does for it.
  have below : ∀ y ∈ kind.entries,
      requiredFrom g (fun _ => none) less y = (ofElement g y).required := by
    intro y entry
    have enters := Grammar.enters_iff.2 ⟨kind, stands, entry⟩
    have lower := wellFormed.height_lt_of_enters enters
    refine requiredFrom_congr wellFormed (fun z sets found => ?_) (by omega)
      (wellFormed.height_lt_size (wellFormed.enters_lt_size enters))
    cases found
  have anchored : ∀ y ∈ kind.anchors,
      requiredFrom g (fun _ => none) less y = (ofElement g y).required :=
    fun y anchor => below y (Kind.mem_entries_of_mem_anchors anchor)
  have unfolded : (ofElement g id).required =
      requiredBy (requiredFrom g (fun _ => none) less) kind := by
    change requiredFrom g (fun _ => none) g.elements.size id = _
    rw [size_eq]
    cases kind with
    | sequence slots =>
        cases slots with
        | nil => simp only [requiredFrom, stands]; rfl
        | cons slot rest =>
            simp only [requiredFrom, stands, requiredBy, Kind.anchors]
            split <;> rfl
    | wrapper opening content closing repeated =>
        cases repeated <;> simp only [requiredFrom, stands] <;> rfl
    | oneOf alternatives sortable =>
        simp only [requiredFrom, stands]
        exact meet_eq_common _ _
    | qualified variants separator =>
        simp only [requiredFrom, stands]
        exact meet_eq_common _ _
    | _ => simp only [requiredFrom, stands]; rfl
  rw [unfolded]
  exact requiredBy_congr anchored

/-- Whether an element may begin with an identifier follows from whether its entries may. -/
theorem shape_eq_shapedBy :
    (ofElement g id).identifierShaped =
      shapedBy g.vocabulary (fun y => (ofElement g y).identifierShaped) kind := by
  have unfolded : (ofElement g id).identifierShaped = true ↔
      ownShape g id = true ∨ ∃ y ∈ kind.entries, (ofElement g y).identifierShaped = true := by
    rw [shape_ofElement wellFormed (Grammar.lt_of_kind?_eq_some stands),
      exists_below_iff wellFormed stands]
    refine or_congr_right (exists_congr fun y => and_congr_right fun entry => ?_)
    have inside := wellFormed.enters_lt_size (Grammar.enters_iff.2 ⟨kind, stands, entry⟩)
    rw [shape_ofElement wellFormed inside, and_iff_right inside]
  rw [Bool.eq_iff_iff, unfolded]
  cases kind with
  | token type text flavor => simp [ownShape, stands, shapedBy, Kind.entries]
  | identifier use isAlias object => simp [ownShape, stands, shapedBy, Kind.entries]
  | _ => simp only [ownShape, stands, shapedBy, List.any_eq_true, Bool.false_eq_true, false_or]

end WellFormed

/-- **Computed first sets are those of plain recursion.**  No element can be entered again
before a token is taken, so the recursion ends. -/
theorem plain_ofElement (wellFormed : g.WellFormed) {id : ElementId}
    (bound : id < g.elements.size) : Plain g id (ofElement g id) := by
  induction height_eq : g.height id using Nat.strong_induction_on generalizing id with
  | _ height ih =>
      have stands := Grammar.kind?_of_lt bound
      have below : ∀ y ∈ g.elements[id].kind.entries, Plain g y (ofElement g y) := by
        intro y entry
        have enters := Grammar.enters_iff.2 ⟨_, stands, entry⟩
        exact ih _ (height_eq ▸ wellFormed.height_lt_of_enters enters)
          (wellFormed.enters_lt_size enters) rfl
      refine ⟨fun t => ?_, ?_, ?_⟩
      · rw [mem_possible_ofElement wellFormed bound]
        refine exists_congr fun leaf => and_iff_right_of_imp fun ⟨_, takes⟩ => ?_
        exact lt_of_mem_ownTokens takes
      · rw [required_ofElement wellFormed stands]
        exact .step stands fun y anchor =>
          (below y (Kind.mem_entries_of_mem_anchors anchor)).required
      · rw [shape_eq_shapedBy wellFormed stands]
        exact .step stands fun y entry => (below y entry).shape

end FirstSets

end Dialect
