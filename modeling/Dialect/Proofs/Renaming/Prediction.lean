import Dialect.Matching.Expectation
import Dialect.Proofs.Renaming.Image

/-!
# Predictions for images

What is predicted of an element and of a path is predicted of their images: first sets, what may
and what must follow (`Image.mayFollow_eq`, `Image.mustFollow_eq`), the order of alternatives that
have kept their places (`Kind.rename_tried`), and the words of messages (`Image.missing_eq`).
-/

set_option autoImplicit false

namespace Dialect

/-! ### Images of paths -/

/-- The element is a choice. -/
def Grammar.IsChoice (g : Grammar) (id : ElementId) : Prop :=
  ∃ alternatives sortable, g.kind? id = some (.oneOf alternatives sortable)

/-- The frame is that of the renamed element.  It is at the same slot, unless the element is a
choice: which alternative is being matched makes no difference to what follows. -/
structure Frame.Image (σ : ElementId → ElementId) (g : Grammar) (frame frame' : Frame) : Prop where
  element_eq : frame'.element = σ frame.element
  slot_eq : ¬ g.IsChoice frame.element → frame'.slot = frame.slot

/-- The path goes through the renamed elements. -/
abbrev Path.Image (σ : ElementId → ElementId) (g : Grammar) (path path' : Path) : Prop :=
  List.Forall₂ (Frame.Image σ g) path path'

section Path

variable {σ : ElementId → ElementId} {g : Grammar} {path path' : Path}

theorem Path.Image.enter (image : path.Image σ g path') (id : ElementId) :
    (path.enter id).Image σ g (path'.enter (σ id)) :=
  .cons ⟨rfl, fun _ => rfl⟩ image

theorem Path.Image.moveTo (image : path.Image σ g path') (slot : Nat) :
    (path.moveTo slot).Image σ g (path'.moveTo slot) := by
  cases image with
  | nil => exact .nil
  | cons same outer => exact .cons ⟨same.element_eq, fun _ => rfl⟩ outer

/-- In a choice the slots need not be the same. -/
theorem Path.Image.moveTo_choice {id : ElementId} (choice : g.IsChoice id)
    (image : path.Image σ g path') (slot slot' : Nat) :
    ((path.enter id).moveTo slot).Image σ g ((path'.enter (σ id)).moveTo slot') :=
  .cons ⟨rfl, fun plain => absurd choice plain⟩ image

theorem Path.Image.ancestors (image : path.Image σ g path') :
    path.ancestors.Image σ g path'.ancestors := by
  cases image with
  | nil => exact .nil
  | cons same outer => exact outer

end Path

/-! ### What one frame says -/

section Frames

variable {σ : ElementId → ElementId} {version : Nat} {starts starts' : ElementId → Except Fault Bool}
  {kind kind' : Kind ElementId}

theorem slotsAfter_rename (slots : List (Slot ElementId)) (slot : Nat) :
    Path.slotsAfter (slots.map (Slot.rename σ)) slot =
      (Path.slotsAfter slots slot).map (List.map (Slot.rename σ)) := by
  unfold Path.slotsAfter
  rw [List.length_map]
  split
  · exact congrArg Except.ok List.map_drop.symm
  · rfl

variable (asked : ∀ id, starts' (σ id) = starts id)

include asked

theorem amongSlots_rename (slots : List (Slot ElementId)) :
    Path.amongSlots version starts' (slots.map (Slot.rename σ)) =
      Path.amongSlots version starts slots := by
  induction slots with
  | nil => rfl
  | cons slot rest ih =>
      simp only [List.map_cons, Path.amongSlots, Slot.rename_isActive, Slot.rename_item,
        Slot.rename_optional, asked, ih]

theorem possibleIn_image (image : kind.Image σ kind') (slot : Nat) :
    Path.possibleIn version starts' slot kind' = Path.possibleIn version starts slot kind := by
  cases image with
  | reordered => rfl
  | renamed =>
      cases kind with
      | sequence slots =>
          simp only [Kind.rename, Path.possibleIn, slotsAfter_rename]
          cases Path.slotsAfter slots slot with
          | error fault => rfl
          | ok later => exact amongSlots_rename asked later
      | wrapper opening content closing repeated =>
          match slot with
          | 0 => simp only [Kind.rename, Path.possibleIn, asked, Slot.rename_isActive,
              Slot.rename_item, Slot.rename_optional]
          | 1 => simp only [Kind.rename, Path.possibleIn, asked]
          | _ + 2 => simp only [Kind.rename, Path.possibleIn, asked]
      | iteration item separator =>
          have again : (if slot = 0 then (separator.map σ).getD (σ item) else σ item) =
              σ (if slot = 0 then separator.getD item else item) := by
            cases separator <;> split <;> rfl
          simp only [Kind.rename, Path.possibleIn, again, asked]
      | qualified variants separator => simp only [Kind.rename, Path.possibleIn, asked]
      | _ => rfl

theorem requiredIn_image (image : kind.Image σ kind') (slot : Nat) :
    Path.requiredIn version starts' slot kind' = Path.requiredIn version starts slot kind := by
  cases image with
  | reordered => rfl
  | renamed =>
      cases kind with
      | sequence slots =>
          simp only [Kind.rename, Path.requiredIn, slotsAfter_rename]
          cases Path.slotsAfter slots slot with
          | error fault => rfl
          | ok later =>
              have found : (later.map (Slot.rename σ)).find? (Slot.isActive version) =
                  (later.find? (Slot.isActive version)).map (Slot.rename σ) := by
                rw [List.find?_map]
                rfl
              simp only [liftM, monadLift, bind, Except.bind, Except.map, found]
              cases later.find? (Slot.isActive version) with
              | none => rfl
              | some next => simp only [Option.map_some, Slot.rename_optional, Slot.rename_item, asked]
      | wrapper opening content closing repeated =>
          match slot with
          | 0 => simp only [Kind.rename, Path.requiredIn, asked, Slot.rename_isActive,
              Slot.rename_item, Slot.rename_optional]
          | 1 => simp only [Kind.rename, Path.requiredIn, asked]
          | _ + 2 => simp only [Kind.rename, Path.requiredIn]
      | iteration item separator => simp only [Kind.rename, Path.requiredIn, asked]
      | _ => rfl

end Frames

/-! ### What follows -/

namespace Grammar.Image

variable {σ : ElementId → ElementId} {g h : Grammar} (image : g.Image σ h)

include image

theorem kindAt_cases (id : ElementId) :
    (∃ kind kind', g.kindAt id = .ok kind ∧ h.kindAt (σ id) = .ok kind' ∧ g.kind? id = some kind ∧
      kind.Image σ kind') ∨
    g.kindAt id = .error (.unknownElement id) ∧ h.kindAt (σ id) = .error (.unknownElement id) := by
  unfold Grammar.kindAt
  rcases image.element_cases id with ⟨element, element', found, found', -, same⟩ | ⟨lost, lost'⟩
  · exact Or.inl ⟨element.kind, element'.kind, by rw [found]; rfl, by rw [found']; rfl,
      kind?_of_element found, same⟩
  · exact Or.inr ⟨by rw [lost]; rfl, by rw [lost']; rfl⟩

/-- Asking along a path and along its image comes to the same. -/
theorem outward_eq {ask ask' : Nat → Kind ElementId → Except Fault (Option Bool)}
    (asked : ∀ slot kind kind', kind.Image σ kind' → ask' slot kind' = ask slot kind)
    (anyPlace : ∀ slot slot' alternatives sortable,
      ask slot (.oneOf alternatives sortable) = ask slot' (.oneOf alternatives sortable))
    {path path' : Path} (same : path.Image σ g path') :
    Path.outward h.kindAt ask' path' = Path.outward g.kindAt ask path := by
  induction same with
  | nil => rfl
  | @cons frame frame' outer outer' here _ ih =>
      unfold Path.outward
      rw [here.element_eq]
      rcases image.kindAt_cases frame.element with
        ⟨kind, kind', found, found', stands, renamed⟩ | ⟨lost, lost'⟩
      · have answer : ask' frame'.slot kind' = ask frame.slot kind := by
          rw [asked _ _ _ renamed]
          by_cases choice : g.IsChoice frame.element
          · obtain ⟨alternatives, sortable, standsToo⟩ := choice
            obtain rfl := Option.some.inj (stands.symm.trans standsToo)
            exact anyPlace _ _ _ _
          · rw [here.slot_eq choice]
        rw [found, found']
        simp only [bind, Except.bind, answer]
        cases ask frame.slot kind with
        | error fault => rfl
        | ok settled =>
            cases settled with
            | none => exact ih
            | some answer => rfl
      · rw [lost, lost']
        rfl

theorem nearest_eq (kind : NodeKind) {path path' : Path} (same : path.Image σ g path') :
    Option.isSome <$> Path.nearest h kind path' = Option.isSome <$> Path.nearest g kind path := by
  induction same with
  | nil => rfl
  | @cons frame frame' outer outer' here _ ih =>
      unfold Path.nearest
      rw [here.element_eq]
      rcases image.element_cases frame.element with
        ⟨element, element', found, found', -, renamed⟩ | ⟨lost, lost'⟩
      · rw [found, found']
        simp only [bind, Except.bind, renamed.nodeKind?_eq]
        split
        · rfl
        · exact ih
      · rw [lost, lost']
        rfl

section Predictions

variable (wellFormed : g.WellFormed) (wellFormed' : h.WellFormed)

include wellFormed wellFormed'

theorem firstsOf_eq (id : ElementId) : h.firstsOf (σ id) = g.firstsOf id := by
  unfold Grammar.firstsOf
  rcases image.element_cases id with ⟨element, element', found, found', -⟩ | ⟨lost, lost'⟩
  · have bound := Grammar.lt_of_kind?_eq_some (kind?_of_element found)
    rw [found, found', image.ofElement_eq wellFormed wellFormed' bound]
    rfl
  · rw [lost, lost']
    rfl

theorem couldStart_eq (token : TokenTypeId) (id : ElementId) :
    h.couldStart token (σ id) = g.couldStart token id := by
  unfold Grammar.couldStart
  rw [image.firstsOf_eq wellFormed wellFormed']

theorem shouldStart_eq (token : TokenTypeId) (id : ElementId) :
    h.shouldStart token (σ id) = g.shouldStart token id := by
  unfold Grammar.shouldStart
  rw [image.firstsOf_eq wellFormed wellFormed']

/-- **What may follow a path may follow its image.** -/
theorem mayFollow_eq (version : Nat) (token : TokenTypeId) {path path' : Path}
    (same : path.Image σ g path') : h.mayFollow version path' token = g.mayFollow version path token :=
  image.outward_eq
    (fun slot _ _ renamed => possibleIn_image (image.couldStart_eq wellFormed wellFormed' token)
      renamed slot)
    (fun _ _ _ _ => rfl) same.ancestors

/-- **What must follow a path must follow its image.** -/
theorem mustFollow_eq (version : Nat) (token : TokenTypeId) {path path' : Path}
    (same : path.Image σ g path') :
    h.mustFollow version path' token = g.mustFollow version path token :=
  image.outward_eq
    (fun slot _ _ renamed => requiredIn_image (image.shouldStart_eq wellFormed wellFormed' token)
      renamed slot)
    (fun _ _ _ _ => rfl) same.ancestors

end Predictions

/-! ### Messages -/

theorem matching_cases (id : ElementId) :
    (∃ element element', g.matching id = .ok element ∧ h.matching (σ id) = .ok element' ∧
      element'.rule = element.rule ∧ element.kind.Image σ element'.kind) ∨
    ∃ fault, g.matching id = .error fault ∧ h.matching (σ id) = .error fault := by
  unfold Grammar.matching
  rw [image.resolve_eq]
  rcases image.element_cases id with ⟨element, element', found, found', -⟩ | ⟨lost, lost'⟩
  · rw [found, found']
    rcases image.element_cases (g.resolve id) with
      ⟨target, target', reached, reached', rule, same⟩ | ⟨lost, lost'⟩
    · exact Or.inl ⟨target, target', reached, reached', rule, same⟩
    · exact Or.inr ⟨_, lost, lost'⟩
  · rw [lost, lost']
    exact Or.inr ⟨_, rfl, rfl⟩

theorem describe_eq (id : ElementId) : h.describe (σ id) = g.describe id := by
  unfold Grammar.describe
  rcases image.matching_cases id with ⟨element, element', found, found', rule, same⟩ | ⟨fault, lost, lost'⟩
  · rw [found, found']
    simp only [bind, Except.bind, rule]
    have label := same.label_eq
    generalize element.kind = kind, element'.kind = kind' at same label
    cases same with
    | reordered => rfl
    | renamed =>
        cases kind with
        | token type text flavor =>
            simp only [Kind.rename]
            rcases image.similar.get_cases type with ⟨a, b, got, got', similar⟩ | ⟨fault, lost, lost'⟩
            · rw [got, got']
              simp only [similar.value_eq, similar.name_eq]
            · rw [lost, lost']
        | _ => rfl
  · rw [lost, lost']
    rfl

theorem missingCode_eq (id : ElementId) : h.missingCode (σ id) = g.missingCode id := by
  unfold Grammar.missingCode
  rcases image.matching_cases id with ⟨element, element', found, found', -, same⟩ | ⟨fault, lost, lost'⟩
  · rw [found, found']
    simp only [bind, Except.bind]
    generalize element.kind = kind, element'.kind = kind' at same
    cases same with
    | reordered => rfl
    | renamed => cases kind <;> rfl
  · rw [lost, lost']

theorem reservedWordHint_eq (id : ElementId) (found : Token) :
    h.reservedWordHint (σ id) found = g.reservedWordHint id found := by
  unfold Grammar.reservedWordHint
  rcases image.similar.get_cases found.kind with ⟨a, b, got, got', similar⟩ | ⟨fault, lost, lost'⟩
  · rw [got, got']
    simp only [bind, Except.bind, similar.reserved_eq]
    rcases image.matching_cases id with ⟨element, element', stands, stands', -, same⟩ | ⟨fault, lost, lost'⟩
    · rw [stands, stands']
      simp only [same.isIdentifier_eq]
    · rw [lost, lost']
  · rw [lost, lost']
    rfl

/-- **The image of an element is missed in the same words**, where the same is seen. -/
theorem missing_eq {c c' : Cursor} (range_eq : c'.currentRange = c.currentRange)
    (current_eq : c'.current? = c.current?) (code : DiagnosticCode) (id : ElementId) :
    c'.missing h code (σ id) = c.missing g code id := by
  unfold Cursor.missing
  simp only [range_eq, current_eq, image.describe_eq, image.reservedWordHint_eq]

end Grammar.Image

/-! ### The order of alternatives -/

section Order

variable {σ : ElementId → ElementId} {g h : Grammar}

theorem identifiersLast_rename (shaped : List (Slot ElementId × Bool)) :
    identifiersLast (shaped.map fun entry => (entry.1.rename σ, entry.2)) =
      (identifiersLast shaped).map (Slot.rename σ) := by
  simp only [identifiersLast, List.filter_map, List.map_append, List.map_map]
  rfl

/-- Renamed alternatives are tried in the same order. -/
theorem tried_rename (image : g.Image σ h) (wellFormed : g.WellFormed) (wellFormed' : h.WellFormed)
    {alternatives : List (Slot ElementId)} (sortable : Bool)
    (bound : ∀ slot ∈ alternatives, slot.item < g.elements.size) :
    (Kind.oneOf (alternatives.map (Slot.rename σ)) sortable).tried h =
      ((Kind.oneOf alternatives sortable).tried g).map (Slot.rename σ) := by
  cases sortable with
  | false => rfl
  | true =>
      have moved : (alternatives.map (Slot.rename σ)).map (fun slot =>
            (slot, (FirstSets.ofElement h slot.item).identifierShaped)) =
          (alternatives.map fun slot =>
            (slot, (FirstSets.ofElement g slot.item).identifierShaped)).map
              fun entry => (entry.1.rename σ, entry.2) := by
        rw [List.map_map, List.map_map]
        refine List.map_congr_left fun slot member => ?_
        simp [image.ofElement_eq wellFormed wellFormed' (bound slot member)]
      rw [Kind.tried, Kind.tried, moved, identifiersLast_rename]

/-- Parts that have kept their places are tried in the same order. -/
theorem Kind.rename_tried (image : g.Image σ h) (wellFormed : g.WellFormed)
    (wellFormed' : h.WellFormed) {id : ElementId} {kind : Kind ElementId}
    (stands : g.kind? id = some kind) :
    (kind.rename σ σ).tried h = (kind.tried g).map (Slot.rename σ) := by
  cases kind with
  | oneOf alternatives sortable =>
      exact tried_rename image wellFormed wellFormed' sortable fun slot member =>
        wellFormed.part_lt_size stands (List.mem_map_of_mem member)
  | _ => rfl

end Order

end Dialect
