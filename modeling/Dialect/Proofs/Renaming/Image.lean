import Dialect.Proofs.Prediction.Following
import Dialect.Proofs.Prediction.Plain
import Mathlib.Data.Option.Basic

/-!
# Images of a grammar

One grammar is the image of another under a renaming of elements when every element has become
one of the same kind, made of the renamed parts (`Grammar.Image`).  The alternatives of a choice
may have changed places, and the vocabularies need only agree in what leaves are matched by.

An image is resolved as the element is (`Image.resolve_eq`), and has the same first sets
(`Image.ofElement_eq`).
-/

set_option autoImplicit false

namespace Dialect

/-! ### Renamed elements -/

/-- The slot with its item renamed. -/
def Slot.rename (σ : ElementId → ElementId) (slot : Slot ElementId) : Slot ElementId :=
  slot.replace (σ slot.item)

section Slot

variable (σ : ElementId → ElementId) (slot : Slot ElementId)

@[simp] theorem Slot.rename_item : (slot.rename σ).item = σ slot.item := rfl

@[simp] theorem Slot.rename_optional : (slot.rename σ).optional = slot.optional := rfl

@[simp] theorem Slot.rename_isActive (version : Nat) :
    (slot.rename σ).isActive version = slot.isActive version := rfl

end Slot

/-- The kind with all parts renamed by `σ`, and what a reference mentions replaced. -/
def Kind.rename {ρ ρ' : Type} (σ : ElementId → ElementId) (mention : ρ → ρ') : Kind ρ → Kind ρ'
  | .token type text flavor => .token type text flavor
  | .identifier use isAlias object => .identifier use isAlias object
  | .sequence slots => .sequence (slots.map (Slot.rename σ))
  | .wrapper opening content closing repeated =>
      .wrapper (σ opening) (content.rename σ) (σ closing) repeated
  | .oneOf alternatives sortable => .oneOf (alternatives.map (Slot.rename σ)) sortable
  | .iteration item separator => .iteration (σ item) (separator.map σ)
  | .qualified variants separator => .qualified (variants.map (List.map σ)) (σ separator)
  | .reference target => .reference (mention target)

theorem Slot.rename_id : Slot.rename id = id := rfl

/-- Renaming nothing. -/
theorem Kind.rename_id (kind : Kind ElementId) : kind.rename id id = kind := by
  cases kind <;> simp [Kind.rename, Slot.rename_id]

/-- The kind that an element has become one of. -/
inductive Kind.Follows {ρ ρ' : Type} (σ : ElementId → ElementId) (mention : ρ → ρ') :
    Kind ρ → Kind ρ' → Prop
  /-- The parts are renamed. -/
  | renamed (kind) : Follows σ mention kind (kind.rename σ mention)
  /-- The alternatives of a choice have changed places as well. -/
  | reordered {alternatives order : List (Slot ElementId)} {sortable : Bool}
      (perm : order.Perm alternatives) :
      Follows σ mention (.oneOf alternatives sortable) (.oneOf (order.map (Slot.rename σ)) sortable)

/-- The kind of the image of an element: references lead to images as well. -/
abbrev Kind.Image (σ : ElementId → ElementId) : Kind ElementId → Kind ElementId → Prop :=
  Kind.Follows σ σ

/-- Token types that leaves cannot tell apart. -/
structure TokenType.Similar (a b : TokenType) : Prop where
  name_eq : b.name = a.name
  value_eq : b.value = a.value
  suppressible_eq : b.isSuppressible = a.isSuppressible
  identifier_eq : b.isIdentifier = a.isIdentifier
  function_eq : b.isFunction = a.isFunction
  reserved_eq : b.isReservedWord = a.isReservedWord
  trivia_eq : b.isTrivia = a.isTrivia

/-- Vocabularies of the same types, as far as leaves can tell. -/
def Vocabulary.Similar (v w : Vocabulary) : Prop :=
  List.Forall₂ TokenType.Similar v.types.toList w.types.toList

/-- The grammar `h` is the image of `g`: for every element there is one of the same kind, made of
the images of its parts. -/
structure Grammar.Image (σ : ElementId → ElementId) (g h : Grammar) : Prop where
  similar : g.vocabulary.Similar h.vocabulary
  size_eq : h.elements.size = g.elements.size
  rules_length : h.rules.length = g.rules.length
  elements : ∀ id element, g.elements[id]? = some element → ∃ image, h.elements[σ id]? = some image ∧
    image.rule = element.rule ∧ element.kind.Image σ image.kind
  /-- What is no element stays what it is. -/
  beyond : ∀ id, g.elements.size ≤ id → σ id = id

/-! ### Vocabularies -/

section Vocabulary

variable {v w : Vocabulary}

theorem TokenType.Similar.refl (type : TokenType) : type.Similar type :=
  ⟨rfl, rfl, rfl, rfl, rfl, rfl, rfl⟩

theorem Vocabulary.Similar.refl (v : Vocabulary) : v.Similar v :=
  List.forall₂_same.2 fun type _ => .refl type

namespace Vocabulary.Similar

variable (similar : v.Similar w)

include similar

theorem rel (id : TokenTypeId) : Option.Rel TokenType.Similar v.types[id]? w.types[id]? := by
  rw [← Array.getElem?_toList, ← Array.getElem?_toList]
  unfold Vocabulary.Similar at similar
  generalize v.types.toList = a, w.types.toList = b at similar
  induction similar generalizing id with
  | nil => exact .none
  | cons same _ ih =>
      cases id with
      | zero => exact .some same
      | succ id => exact ih id

theorem size_eq : w.types.size = v.types.size := by
  simpa using similar.length_eq.symm

/-- A property that similar types share is shared by the types of one number. -/
theorem has_eq {property : TokenType → Bool}
    (shared : ∀ a b : TokenType, a.Similar b → property b = property a) (id : TokenTypeId) :
    w.has property id = v.has property id := by
  have rel := similar.rel id
  unfold Vocabulary.has
  generalize v.types[id]? = a, w.types[id]? = b at rel
  cases rel with
  | none => rfl
  | some same => exact shared _ _ same

/-- A type of one vocabulary and the similar one of the other, if there are any. -/
theorem get_cases (id : TokenTypeId) :
    (∃ type type', v.get id = .ok type ∧ w.get id = .ok type' ∧ type.Similar type') ∨
    ∃ fault, v.get id = .error fault ∧ w.get id = .error fault := by
  have rel := similar.rel id
  unfold Vocabulary.get
  generalize v.types[id]? = a, w.types[id]? = b at rel
  cases rel with
  | none => exact Or.inr ⟨_, rfl, rfl⟩
  | some same => exact Or.inl ⟨_, _, rfl, rfl, same⟩

theorem lookup?_eq (name : String) : w.lookup? name = v.lookup? name := by
  obtain ⟨dialect, ⟨types⟩⟩ := v
  obtain ⟨dialect', ⟨types'⟩⟩ := w
  unfold Vocabulary.lookup?
  rw [List.findIdx?_toArray, List.findIdx?_toArray]
  change List.Forall₂ TokenType.Similar types types' at similar
  induction similar with
  | nil => rfl
  | cons same _ ih => rw [List.findIdx?_cons, List.findIdx?_cons, ih, same.name_eq]

theorem idsWhere_eq {property : TokenType → Bool}
    (shared : ∀ a b : TokenType, a.Similar b → property b = property a) :
    w.idsWhere property = v.idsWhere property := by
  unfold Vocabulary.idsWhere
  rw [similar.size_eq]
  exact List.filter_congr fun id _ => similar.has_eq shared id

end Vocabulary.Similar

end Vocabulary

/-! ### What an image has in common with the grammar -/

namespace Kind.Image

variable {σ : ElementId → ElementId} {kind kind' : Kind ElementId} (image : kind.Image σ kind')

include image

theorem nodeKind?_eq : kind'.nodeKind? = kind.nodeKind? := by
  cases image with
  | renamed => cases kind <;> rfl
  | reordered => rfl

theorem label_eq : kind'.label = kind.label := by
  cases image with
  | renamed => cases kind <;> rfl
  | reordered => rfl

theorem isDefinition_eq : kind'.isDefinition = kind.isDefinition := by
  cases image with
  | renamed => cases kind <;> rfl
  | reordered => rfl

theorem isIdentifier_eq : kind'.isIdentifier = kind.isIdentifier := by
  cases image with
  | renamed => cases kind <;> rfl
  | reordered => rfl

omit image in
theorem leading_map (σ : ElementId → ElementId) (slots : List (Slot ElementId)) :
    Kind.leading (slots.map (Slot.rename σ)) = (Kind.leading slots).map σ := by
  induction slots with
  | nil => rfl
  | cons slot rest ih =>
      simp only [List.map_cons, Kind.leading, Slot.rename_item, Slot.rename_optional, ih]
      cases slot.optional <;> rfl

/-- The image is entered through the images of the elements through which the element is
entered. -/
theorem entries_perm : kind'.entries.Perm (kind.entries.map σ) := by
  cases image with
  | renamed =>
      cases kind with
      | sequence slots => exact .of_eq (leading_map σ slots)
      | wrapper opening content closing repeated => cases repeated <;> exact .refl _
      | oneOf alternatives sortable => exact .of_eq (by simp [Kind.rename, Kind.entries])
      | qualified variants separator =>
          refine .of_eq ?_
          simp only [Kind.rename, Kind.entries, List.filterMap_map, List.map_filterMap]
          exact congrArg (fun f => variants.filterMap f) (funext fun variant => List.head?_map)
      | _ => exact .refl _
  | reordered perm =>
      simp only [Kind.entries, List.map_map]
      exact perm.map _

/-- What every match of the image begins with depends on the images of the elements on which it
depends for the element. -/
theorem anchors_perm : kind'.anchors.Perm (kind.anchors.map σ) := by
  cases image with
  | renamed =>
      cases kind with
      | sequence slots =>
          cases slots with
          | nil => exact .refl _
          | cons slot rest => cases optional : slot.optional <;> simp [Kind.rename, Kind.anchors, optional]
      | wrapper opening content closing repeated => cases repeated <;> exact .refl _
      | oneOf alternatives sortable => exact .of_eq (by simp [Kind.rename, Kind.anchors])
      | qualified variants separator =>
          refine .of_eq ?_
          simp only [Kind.rename, Kind.anchors, List.filterMap_map, List.map_filterMap]
          exact congrArg (fun f => variants.filterMap f) (funext fun variant => List.head?_map)
      | _ => exact .refl _
  | reordered perm =>
      simp only [Kind.anchors, List.map_map]
      exact perm.map _

omit image in
/-- What sets have in common does not depend on their order. -/
theorem common_perm {sets others : List TokenSet} (perm : sets.Perm others) :
    FirstSets.common sets = FirstSets.common others := by
  cases sets with
  | nil => rw [perm.nil_eq]
  | cons set rest =>
      cases others with
      | nil => exact absurd perm.symm.nil_eq (List.cons_ne_nil _ _).symm
      | cons other more =>
          apply TokenSet.ext
          intro t
          have all : ∀ (set : TokenSet) (rest : List TokenSet),
              t ∈ FirstSets.common (set :: rest) ↔ ∀ member ∈ set :: rest, t ∈ member := by
            intro set rest
            rw [FirstSets.mem_common, List.forall_mem_cons]
          rw [all, all]
          exact forall_congr' fun member => imp_congr_left perm.mem_iff

/-- What the image of an element requires, given what the images of its parts do. -/
theorem requiredBy_eq (below : ElementId → TokenSet) :
    FirstSets.requiredBy below kind' = FirstSets.requiredBy (fun y => below (σ y)) kind := by
  have anchors := common_perm (image.anchors_perm.map below)
  rw [List.map_map] at anchors
  cases image with
  | renamed => cases kind <;> first | rfl | exact anchors
  | reordered => exact anchors

/-- Whether the image of an element may begin with an identifier, given whether the images of its
parts may. -/
theorem shapedBy_eq {v w : Vocabulary} (similar : v.Similar w)
    (below : ElementId → Bool) :
    FirstSets.shapedBy w below kind' = FirstSets.shapedBy v (fun y => below (σ y)) kind := by
  have entries := image.entries_perm.any_eq (f := below)
  rw [List.any_map] at entries
  cases image with
  | renamed =>
      cases kind with
      | token type text flavor => exact similar.has_eq (fun _ _ same => same.identifier_eq) type
      | identifier use isAlias object => rfl
      | _ => exact entries
  | reordered => exact entries

end Kind.Image

namespace Grammar.Image

variable {σ : ElementId → ElementId} {g h : Grammar} {id : ElementId} {kind : Kind ElementId}

section Elements

variable (image : g.Image σ h)

include image

/-- An element of the grammar and its image, if there is one. -/
theorem element_cases (id : ElementId) :
    (∃ element element', g.element id = .ok element ∧ h.element (σ id) = .ok element' ∧
      element'.rule = element.rule ∧ element.kind.Image σ element'.kind) ∨
    g.element id = .error (.unknownElement id) ∧ h.element (σ id) = .error (.unknownElement id) := by
  unfold Grammar.element
  cases found : g.elements[id]? with
  | some element =>
      obtain ⟨element', found', rule, kind⟩ := image.elements id element found
      exact Or.inl ⟨element, element', rfl, by rw [found'], rule, kind⟩
  | none =>
      have outside : g.elements.size ≤ id := Array.getElem?_eq_none_iff.1 found
      have outside' : h.elements.size ≤ id := image.size_eq ▸ outside
      rw [image.beyond id outside, Array.getElem?_eq_none outside']
      exact Or.inr ⟨rfl, rfl⟩

theorem exists_kind (stands : g.kind? id = some kind) :
    ∃ kind', h.kind? (σ id) = some kind' ∧ kind.Image σ kind' := by
  obtain ⟨element, found, rfl⟩ := Grammar.kind?_eq_some.1 stands
  obtain ⟨element', found', -, image⟩ := image.elements id element found
  exact ⟨element'.kind, Grammar.kind?_eq_some.2 ⟨element', found', rfl⟩, image⟩

theorem lt_size_iff : σ id < h.elements.size ↔ id < g.elements.size := by
  constructor
  · intro inside
    by_contra outside
    rw [image.beyond id (Nat.le_of_not_lt outside), image.size_eq] at inside
    exact outside inside
  · intro inside
    obtain ⟨kind', stands, -⟩ := image.exists_kind (Grammar.kind?_of_lt inside)
    exact Grammar.lt_of_kind?_eq_some stands

theorem kind?_eq_none (nothing : g.kind? id = none) : h.kind? (σ id) = none := by
  by_contra stands
  obtain ⟨kind', stands⟩ := Option.ne_none_iff_exists'.1 stands
  rw [Grammar.kind?_of_lt (image.lt_size_iff.1 (Grammar.lt_of_kind?_eq_some stands))] at nothing
  cases nothing

theorem target?_eq (id : ElementId) : h.target? (σ id) = (g.target? id).map σ := by
  unfold Grammar.target?
  cases stands : g.kind? id with
  | none => rw [image.kind?_eq_none stands]; rfl
  | some kind =>
      obtain ⟨kind', stands', same⟩ := image.exists_kind stands
      rw [stands']
      cases same with
      | renamed => cases kind <;> rfl
      | reordered => rfl

/-- References are followed to the image of what they lead to. -/
theorem follow_eq (steps : Nat) (id : ElementId) : h.follow steps (σ id) = σ (g.follow steps id) := by
  induction steps generalizing id with
  | zero => rfl
  | succ steps ih =>
      unfold Grammar.follow
      rw [image.target?_eq id]
      cases g.target? id with
      | none => rfl
      | some target => exact ih target

theorem resolve_eq (id : ElementId) : h.resolve (σ id) = σ (g.resolve id) := by
  unfold Grammar.resolve
  rw [image.rules_length, image.follow_eq]

end Elements

/-! ### First sets -/

section FirstSets

variable (image : g.Image σ h)

include image

theorem ownTokens_eq (id : ElementId) :
    FirstSets.ownTokens h (σ id) = FirstSets.ownTokens g id := by
  unfold FirstSets.ownTokens
  cases stands : g.kind? id with
  | none => rw [image.kind?_eq_none stands]
  | some kind =>
      obtain ⟨kind', stands', same⟩ := image.exists_kind stands
      rw [stands']
      cases same with
      | reordered => rfl
      | renamed =>
          cases kind with
          | identifier use isAlias object =>
              refine congrArg TokenSet.ofList (image.similar.idsWhere_eq fun a b similar => ?_)
              rw [similar.identifier_eq, similar.suppressible_eq]
          | _ => rfl

/-- **The first sets of the image of an element are its own.** -/
theorem ofElement_eq (wellFormed : g.WellFormed) (wellFormed' : h.WellFormed)
    (bound : id < g.elements.size) : FirstSets.ofElement h (σ id) = FirstSets.ofElement g id := by
  induction height_eq : g.height id using Nat.strong_induction_on generalizing id with
  | _ height ih =>
      have stands := Grammar.kind?_of_lt bound
      obtain ⟨kind', stands', same⟩ := image.exists_kind stands
      have entries := same.entries_perm
      have below : ∀ y ∈ g.elements[id].kind.entries,
          FirstSets.ofElement h (σ y) = FirstSets.ofElement g y := by
        intro y entry
        have enters := Grammar.enters_iff.2 ⟨_, stands, entry⟩
        exact ih _ (height_eq ▸ wellFormed.height_lt_of_enters enters)
          (wellFormed.enters_lt_size enters) rfl
      -- Each of the three parts of a set of first tokens is determined by the entries alone.
      have possible : (FirstSets.ofElement h (σ id)).possible =
          (FirstSets.ofElement g id).possible := by
        apply TokenSet.ext
        intro t
        rw [FirstSets.mem_possible_iff wellFormed' stands', FirstSets.mem_possible_iff wellFormed stands,
          image.ownTokens_eq]
        refine or_congr_right ?_
        simp only [entries.mem_iff, List.mem_map, exists_exists_and_eq_and]
        exact exists_congr fun y => and_congr_right fun entry => by rw [below y entry]
      have required : (FirstSets.ofElement h (σ id)).required =
          (FirstSets.ofElement g id).required := by
        rw [FirstSets.required_ofElement wellFormed' stands', FirstSets.required_ofElement wellFormed stands,
          FirstSets.requiredBy_congr fun y anchor => congrArg FirstSets.required
            (below y (Kind.mem_entries_of_mem_anchors anchor)).symm]
        exact same.requiredBy_eq _
      have shape : (FirstSets.ofElement h (σ id)).identifierShaped =
          (FirstSets.ofElement g id).identifierShaped := by
        rw [FirstSets.shape_eq_shapedBy wellFormed' stands', FirstSets.shape_eq_shapedBy wellFormed stands,
          FirstSets.shapedBy_congr fun y entry => congrArg FirstSets.identifierShaped
            (below y entry).symm]
        exact same.shapedBy_eq image.similar _
      calc FirstSets.ofElement h (σ id)
        _ = ⟨(FirstSets.ofElement h (σ id)).possible, (FirstSets.ofElement h (σ id)).required,
              (FirstSets.ofElement h (σ id)).identifierShaped⟩ := rfl
        _ = FirstSets.ofElement g id := by rw [possible, required, shape]

end FirstSets

end Grammar.Image

end Dialect
