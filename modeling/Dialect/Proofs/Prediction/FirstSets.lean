import Dialect.Prediction.FirstSets
import Dialect.Proofs.Grammar.Height

/-!
# What first sets contain

A token type is among the possible first ones of an element exactly if some element
takes it that can be entered, through any number of entries, where the first is
(`mem_possible_ofElement`).

First sets may be computed with the help of some that are known already: if those are
right, so is the result (`compute_eq_ofElement`).
-/

set_option autoImplicit false

namespace Dialect.FirstSets

open Relation

variable {g : Grammar} {known : ElementId → Option FirstSets}

/-- Whether what is known has been computed from the grammar. -/
def Known (g : Grammar) (known : ElementId → Option FirstSets) : Prop :=
  ∀ id sets, known id = some sets → id < g.elements.size ∧ sets = ofElement g id

/-! ### Possible tokens and shape -/

theorem lt_of_mem_ownTokens {id : ElementId} {t : TokenTypeId} (takes : t ∈ ownTokens g id) :
    id < g.elements.size := by
  cases stands : g.kind? id with
  | none => simp [ownTokens, stands] at takes
  | some kind => exact Grammar.lt_of_kind?_eq_some stands

/-- An identifier takes identifiers and words that may be read as such. -/
theorem mem_ownTokens_identifier {id : ElementId} {use : NameUse} {isAlias : Bool}
    {object : Option String} (stands : g.kind? id = some (.identifier use isAlias object))
    {t : TokenTypeId} {type : TokenType} (found : g.vocabulary.types[t]? = some type) :
    t ∈ ownTokens g id ↔ type.isIdentifier = true ∨ type.isSuppressible = true := by
  obtain ⟨bound, rfl⟩ := Array.getElem?_eq_some_iff.1 found
  simp [ownTokens, stands, Vocabulary.idsWhere, Vocabulary.has, bound]

/-- `b` may be entered from `a`, and nothing is known about `a`. -/
def EntersUnknown (g : Grammar) (known : ElementId → Option FirstSets) (a b : ElementId) : Prop :=
  known a = none ∧ g.Enters a b

theorem mem_closure {id y : ElementId} :
    y ∈ closure g known id ↔
      y < g.elements.size ∧ ReflTransGen (EntersUnknown g known) id y := by
  have edges : Reach.Edge (fun id => if (known id).isSome then [] else g.entries id) =
      EntersUnknown g known := by
    funext a b
    cases found : known a <;> simp [Reach.Edge, EntersUnknown, Grammar.Enters, found]
  have inside : ∀ a b, b ∈ (if (known a).isSome then [] else g.entries a) →
      a < g.elements.size := by
    intro a b follows
    split at follows
    · cases follows
    · exact Grammar.Enters.lt_size follows
  unfold closure
  rw [Reach.mem_search_iff inside, edges]
  simp

/-- The search stops at what is known, so what lies behind is found through it.  This
holds of whatever the known answers say (`asked`), provided that they say what would be
found by searching on. -/
theorem exists_mem_closure_iff (wellFormed : g.WellFormed) {own : ElementId → Prop}
    {asked : FirstSets → Prop}
    (known_iff : ∀ y sets, known y = some sets →
      (asked sets ↔ ∃ z, z < g.elements.size ∧ ReflTransGen g.Enters y z ∧ own z))
    {id : ElementId} (bound : id < g.elements.size) :
    (∃ y ∈ closure g known id, match known y with
      | some sets => asked sets
      | none => own y) ↔
      ∃ z, z < g.elements.size ∧ ReflTransGen g.Enters id z ∧ own z := by
  constructor
  · rintro ⟨y, listed, answer⟩
    obtain ⟨inside, path⟩ := mem_closure.1 listed
    have reached : ReflTransGen g.Enters id y := ReflTransGen.mono (fun _ _ edge => edge.2) _ _ path
    cases found : known y with
    | none =>
        rw [found] at answer
        exact ⟨y, inside, reached, answer⟩
    | some sets =>
        rw [found] at answer
        obtain ⟨z, zInside, further, takes⟩ := (known_iff y sets found).1 answer
        exact ⟨z, zInside, reached.trans further, takes⟩
  · rintro ⟨z, inside, path, takes⟩
    -- The closure stops at what is known, which answers for all that lies behind it.
    induction path using ReflTransGen.head_induction_on with
    | refl =>
        refine ⟨z, mem_closure.2 ⟨inside, .refl⟩, ?_⟩
        cases found : known z with
        | none => exact takes
        | some sets => exact (known_iff z sets found).2 ⟨z, inside, .refl, takes⟩
    | @head a b enters path ih =>
        cases found : known a with
        | some sets =>
            refine ⟨a, mem_closure.2 ⟨bound, .refl⟩, ?_⟩
            rw [found]
            exact (known_iff a sets found).2 ⟨z, inside, path.head enters, takes⟩
        | none =>
            obtain ⟨y, listed, answer⟩ := ih (wellFormed.enters_lt_size enters)
            obtain ⟨yInside, further⟩ := mem_closure.1 listed
            exact ⟨y, mem_closure.2 ⟨yInside, further.head ⟨found, enters⟩⟩, answer⟩

theorem mem_foldl_union {t : TokenTypeId} {f : ElementId → TokenSet} {ids : List ElementId}
    {set : TokenSet} :
    t ∈ ids.foldl (fun set id => set ∪ f id) set ↔ t ∈ set ∨ ∃ id ∈ ids, t ∈ f id := by
  induction ids generalizing set with
  | nil => simp
  | cons id rest ih => simp [ih, or_assoc]

theorem mem_possibleFrom {id : ElementId} {t : TokenTypeId} :
    t ∈ possibleFrom g known id ↔ ∃ y ∈ closure g known id, match known y with
      | some sets => t ∈ sets.possible
      | none => t ∈ ownTokens g y := by
  unfold possibleFrom
  rw [mem_foldl_union]
  constructor
  · rintro (none | ⟨y, listed, answer⟩)
    · exact absurd none (TokenSet.not_mem_empty t)
    · refine ⟨y, listed, ?_⟩
      cases found : known y <;> simpa [found] using answer
  · rintro ⟨y, listed, answer⟩
    refine Or.inr ⟨y, listed, ?_⟩
    cases found : known y <;> simpa [found] using answer

/-- **What can come first**: the token types of the leaves that can be entered at the same
token. -/
theorem mem_possible_ofElement (wellFormed : g.WellFormed) {id : ElementId}
    (bound : id < g.elements.size) {t : TokenTypeId} :
    t ∈ (ofElement g id).possible ↔
      ∃ z, z < g.elements.size ∧ ReflTransGen g.Enters id z ∧ t ∈ ownTokens g z := by
  have nothing : ∀ y sets, (fun _ => none : ElementId → Option FirstSets) y = some sets →
      (t ∈ sets.possible ↔
        ∃ z, z < g.elements.size ∧ ReflTransGen g.Enters y z ∧ t ∈ ownTokens g z) := by
    intro y sets found
    cases found
  exact mem_possibleFrom.trans (exists_mem_closure_iff wellFormed nothing bound)

/-- A token comes first in its own element, and no other does. -/
theorem mem_possible_of_token (wellFormed : g.WellFormed) {id : ElementId} {type t : TokenTypeId}
    {text : Option String} {flavor : Option Category}
    (stands : g.kind? id = some (.token type text flavor)) :
    t ∈ (ofElement g id).possible ↔ t = type := by
  have bound := Grammar.lt_of_kind?_eq_some stands
  have own : t ∈ ownTokens g id ↔ t = type := by simp [ownTokens, stands]
  rw [mem_possible_ofElement wellFormed bound]
  constructor
  · rintro ⟨leaf, -, way, takes⟩
    rcases ReflTransGen.cases_head way with rfl | ⟨next, enters, -⟩
    · exact own.1 takes
    · obtain ⟨kind, stands', entry⟩ := Grammar.enters_iff.1 enters
      obtain rfl := Option.some.inj (stands.symm.trans stands')
      cases entry
  · exact fun same => ⟨id, bound, .refl, own.2 same⟩

theorem shapeFrom_eq_true {id : ElementId} :
    shapeFrom g known id = true ↔ ∃ y ∈ closure g known id, match known y with
      | some sets => sets.identifierShaped = true
      | none => ownShape g y = true := by
  unfold shapeFrom
  rw [List.any_eq_true]
  constructor
  · rintro ⟨y, listed, answer⟩
    refine ⟨y, listed, ?_⟩
    cases found : known y <;> simpa [found] using answer
  · rintro ⟨y, listed, answer⟩
    refine ⟨y, listed, ?_⟩
    cases found : known y <;> simpa [found] using answer

theorem shape_ofElement (wellFormed : g.WellFormed) {id : ElementId}
    (bound : id < g.elements.size) :
    (ofElement g id).identifierShaped = true ↔
      ∃ z, z < g.elements.size ∧ ReflTransGen g.Enters id z ∧ ownShape g z = true := by
  have nothing : ∀ y sets, (fun _ => none : ElementId → Option FirstSets) y = some sets →
      (sets.identifierShaped = true ↔
        ∃ z, z < g.elements.size ∧ ReflTransGen g.Enters y z ∧ ownShape g z = true) := by
    intro y sets found
    cases found
  exact shapeFrom_eq_true.trans (exists_mem_closure_iff wellFormed nothing bound)

theorem possibleFrom_eq (wellFormed : g.WellFormed) (right : Known g known) {id : ElementId}
    (bound : id < g.elements.size) :
    possibleFrom g known id = (ofElement g id).possible := by
  apply TokenSet.ext
  intro t
  rw [mem_possible_ofElement wellFormed bound]
  refine mem_possibleFrom.trans (exists_mem_closure_iff wellFormed (fun y sets found => ?_) bound)
  obtain ⟨inside, rfl⟩ := right y sets found
  exact mem_possible_ofElement wellFormed inside

theorem shapeFrom_eq (wellFormed : g.WellFormed) (right : Known g known) {id : ElementId}
    (bound : id < g.elements.size) :
    shapeFrom g known id = (ofElement g id).identifierShaped := by
  rw [Bool.eq_iff_iff, shape_ofElement wellFormed bound]
  refine shapeFrom_eq_true.trans (exists_mem_closure_iff wellFormed (fun y sets found => ?_) bound)
  obtain ⟨inside, rfl⟩ := right y sets found
  exact shape_ofElement wellFormed inside

/-! ### Required tokens -/

theorem meet_congr {f f' : ElementId → TokenSet} {ids : List ElementId}
    (same : ∀ id ∈ ids, f id = f' id) : meet f ids = meet f' ids := by
  induction ids with
  | nil => rfl
  | cons id rest ih =>
      have head : f id = f' id := same id List.mem_cons_self
      have tail : meet f rest = meet f' rest :=
        ih fun other member => same other (List.mem_cons_of_mem _ member)
      cases rest with
      | nil => simp only [meet, head]
      | cons next others => simp only [meet, head, tail]

/-- Any depth above the height of an element is deep enough, and what is known makes no
difference if it says what would be computed. -/
theorem requiredFrom_congr (wellFormed : g.WellFormed)
    (known_eq : ∀ y sets, known y = some sets → ∀ depth, g.height y < depth →
      sets.required = requiredFrom g (fun _ => none) depth y)
    {depth depth' : Nat} {id : ElementId} (deep : g.height id < depth)
    (deep' : g.height id < depth') :
    requiredFrom g known depth id = requiredFrom g (fun _ => none) depth' id := by
  induction depth generalizing depth' id with
  | zero => exact absurd deep (Nat.not_lt_zero _)
  | succ depth ih =>
      obtain ⟨depth', rfl⟩ : ∃ less, depth' = less + 1 :=
        ⟨depth' - 1, (Nat.sub_add_cancel (Nat.lt_of_le_of_lt (Nat.zero_le _) deep')).symm⟩
      -- Known sets agree by assumption; unknown ones are read off entries, which are lower.
      cases found : known id with
      | some sets =>
          rw [← known_eq id sets found _ deep']
          simp only [requiredFrom, found]
      | none =>
          have below : ∀ y, g.Enters id y →
              requiredFrom g known depth y = requiredFrom g (fun _ => none) depth' y := by
            intro y enters
            have lower := wellFormed.height_lt_of_enters enters
            apply ih <;> omega
          cases stands : g.kind? id with
          | none => simp only [requiredFrom, found, stands]
          | some kind =>
              have entry : ∀ y, y ∈ kind.entries →
                  requiredFrom g known depth y = requiredFrom g (fun _ => none) depth' y :=
                fun y member => below y (Grammar.enters_iff.2 ⟨kind, stands, member⟩)
              cases kind with
              | token type text flavor => simp only [requiredFrom, found, stands]
              | identifier use isAlias object => simp only [requiredFrom, found, stands]
              | sequence slots =>
                  cases slots with
                  | nil => simp only [requiredFrom, found, stands]
                  | cons slot rest =>
                      simp only [requiredFrom, found, stands]
                      rw [entry slot.item (by simp [Kind.entries, Kind.leading])]
              | wrapper opening content closing repeated =>
                  simp only [requiredFrom, found, stands]
                  rw [entry opening (by cases repeated <;> simp [Kind.entries])]
              | oneOf alternatives sortable =>
                  simp only [requiredFrom, found, stands]
                  exact meet_congr entry
              | iteration item separator =>
                  simp only [requiredFrom, found, stands]
                  exact entry item (by simp [Kind.entries])
              | qualified variants separator =>
                  simp only [requiredFrom, found, stands]
                  exact meet_congr entry
              | reference target =>
                  simp only [requiredFrom, found, stands]
                  exact entry target (by simp [Kind.entries])

theorem requiredFrom_eq (wellFormed : g.WellFormed) (right : Known g known) {id : ElementId}
    (bound : id < g.elements.size) :
    requiredFrom g known g.elements.size id = (ofElement g id).required := by
  have unaided : ∀ {y depth}, y < g.elements.size → g.height y < depth →
      requiredFrom g (fun _ => none) g.elements.size y =
        requiredFrom g (fun _ => none) depth y := by
    intro y depth inside deep
    refine requiredFrom_congr wellFormed ?_ (wellFormed.height_lt_size inside) deep
    intro y sets found
    cases found
  refine requiredFrom_congr wellFormed (fun y sets found depth deep => ?_)
    (wellFormed.height_lt_size bound) (wellFormed.height_lt_size bound)
  obtain ⟨inside, rfl⟩ := right y sets found
  exact unaided inside deep

/-- **Known first sets are no different from computed ones.** -/
theorem compute_eq_ofElement (wellFormed : g.WellFormed) (right : Known g known) {id : ElementId}
    (bound : id < g.elements.size) : compute g known id = ofElement g id := by
  have possible := possibleFrom_eq wellFormed right bound
  have required := requiredFrom_eq wellFormed right bound
  have shape := shapeFrom_eq wellFormed right bound
  unfold compute
  rw [possible, required, shape]

end Dialect.FirstSets
