import Dialect.Proofs.Matching.Admission
import Dialect.Proofs.Renaming.Parts

/-!
# Choices and their images are matched alike

If the alternatives that are tried (`Setting.lets`) are in the same order in both parses, the
choices are matched alike, whatever the places of the others (`oneOf_reflects`).
-/

set_option autoImplicit false

namespace Dialect

section IsChoice

variable {g h : Grammar} {id : ElementId}

/-- The alternatives of a choice in the order in which they are tried, all of them elements. -/
theorem Grammar.IsChoice.tried (choice : g.IsChoice id) (wellFormed : g.WellFormed) :
    ∃ order, g.triedOf id = .ok order ∧ ∀ slot ∈ order, slot.item < g.elements.size := by
  obtain ⟨alternatives, sortable, stands⟩ := choice
  exact ⟨_, Grammar.triedOf_of_kind? stands, fun slot member =>
    wellFormed.part_lt_size stands (List.mem_map_of_mem (Kind.mem_tried.1 member))⟩

theorem Grammar.Image.isChoice {σ : ElementId → ElementId} (image : g.Image σ h)
    (choice : g.IsChoice id) : h.IsChoice (σ id) := by
  obtain ⟨alternatives, sortable, stands⟩ := choice
  obtain ⟨kind', stands', same⟩ := image.exists_kind stands
  cases same with
  | renamed => exact ⟨_, _, stands'⟩
  | reordered => exact ⟨_, _, stands'⟩

end IsChoice

namespace Mirror

variable {m : Mirror}

/-- At every token the alternatives of a choice that are tried are the images of those that are
tried in the other parse, in the same order. -/
def Orderly (m : Mirror) : Prop :=
  ∀ id order order', m.source.grammar.IsChoice id →
    m.source.grammar.triedOf id = .ok order → m.target.grammar.triedOf (m.element id) = .ok order' →
    ∀ k current, m.input.token? k = some current →
      order'.filter (m.target.letsAt m.input' k current) =
        (order.filter (m.source.letsAt m.input k current)).map (Slot.rename m.element)

/-- The best attempt so far with its record renamed. -/
def keep (m : Mirror) (best : Option (Outcome × Snapshot)) : Option (Outcome × Snapshot) :=
  best.map fun kept => (kept.1, kept.2.rename m.element m.index)

/-- The answer with the record of the best attempt renamed. -/
def Settles (m : Mirror) (answer answer' : Outcome ⊕ Option (Outcome × Snapshot)) : Prop :=
  answer' = answer.map (fun outcome => outcome) m.keep

section Choice

open Matcher

variable {attempt attempt' : Attempt} (fair : m.Fair) (attempts : m.Attempts attempt attempt')
  {outer outer' : Path} (paths : outer.Image m.element m.source.grammar outer')

include fair

omit fair in
/-- A state with another memo that is faithful. -/
theorem States.remember {p q : Progress} (states : m.States p q) {memo memo' : Memo}
    (faithful : memo.Faithful m.source.grammar) (faithful' : memo'.Faithful m.target.grammar) :
    m.States { p with memo } { q with memo := memo' } :=
  ⟨states.cursors, by rw [states.same], faithful, faithful'⟩

/-- The types of a token are found in both parses, or in neither; which of its properties the
settings go by is known then. -/
theorem known_reflects (type : TokenTypeId) :
    m.Reflects (fun known known' =>
        m.source.grammar.vocabulary.has TokenType.isChameleon type = known.isChameleon ∧
        m.target.grammar.vocabulary.has TokenType.isChameleon type = known'.isChameleon)
      (liftM (m.source.grammar.vocabulary.get type) : Matcher TokenType)
      (liftM (m.target.grammar.vocabulary.get type)) := by
  refine reflects_found ?_
  have rel := fair.image.similar.rel type
  unfold Vocabulary.get Vocabulary.has
  generalize m.source.grammar.vocabulary.types[type]? = a,
    m.target.grammar.vocabulary.types[type]? = b at rel
  cases rel with
  | none => exact Or.inr ⟨_, rfl, rfl⟩
  | some _ => exact Or.inl ⟨_, _, rfl, rfl, rfl, rfl⟩

include attempts paths

omit fair in
/-- An alternative is tried like its image, and so are those behind it. -/
theorem tryThen_reflects {id : ElementId} (choice : m.source.grammar.IsChoice id)
    {unfiltered unfiltered' : Bool} {current : TokenTypeId} {slot : Slot ElementId}
    {rest rest' : List (Slot ElementId)} {index index' : Nat} {best : Option (Outcome × Snapshot)}
    (others : ∀ best, m.Reflects m.Settles
      (tryAlternatives m.source attempt (outer.enter id) unfiltered current rest (index + 1) best)
      (tryAlternatives m.target attempt' (outer'.enter (m.element id)) unfiltered' current rest'
        (index' + 1) (m.keep best))) :
    m.Reflects m.Settles
      (tryThen m.source attempt (outer.enter id) unfiltered current slot rest index best)
      (tryThen m.target attempt' (outer'.enter (m.element id)) unfiltered' current
        (slot.rename m.element) rest' index'
        (m.keep best)) := by
  unfold tryThen
  refine reflects_bind_eq (reflects_move moves_mark) fun mark => ?_
  refine reflects_bind_eq (attempts slot.item _ _ (paths.moveTo_choice choice index index'))
    fun outcome => ?_
  refine reflects_ite ?_ (reflects_get fun p q states => ?_)
  · exact reflects_bind_eq (reflects_move (moves_release mark)) fun _ => reflects_pure rfl
  · have scan : q.scan = p.scan := by rw [states.same]
    have improves_eq : improves outcome
        (m.keep best) = improves outcome best := by
      cases best <;> rfl
    rw [scan, improves_eq]
    refine reflects_ite ?_ ?_ p q states
    · refine reflects_bind (reflects_move (moves_takeBack mark)) fun snapshot snapshot' taken => ?_
      obtain rfl := taken
      exact others (some (outcome, snapshot))
    · exact reflects_bind_eq (reflects_move (moves_rollback mark)) fun _ => others best

/-- Alternatives of which the same are let through are tried alike. -/
theorem tryAlternatives_reflects {id : ElementId} (choice : m.source.grammar.IsChoice id)
    {unfiltered unfiltered' : Bool} {current : TokenTypeId} {admitted : List (Slot ElementId)}
    {slots slots' : List (Slot ElementId)}
    (bound : ∀ slot ∈ slots, slot.item < m.source.grammar.elements.size)
    (bound' : ∀ slot ∈ slots', slot.item < m.target.grammar.elements.size)
    (here : slots.filter (m.source.lets unfiltered current) = admitted)
    (there : slots'.filter (m.target.lets unfiltered' current) =
      admitted.map (Slot.rename m.element))
    (index index' : Nat) (best : Option (Outcome × Snapshot)) :
    m.Reflects m.Settles
      (tryAlternatives m.source attempt (outer.enter id) unfiltered current slots index best)
      (tryAlternatives m.target attempt' (outer'.enter (m.element id)) unfiltered' current slots'
        index' (m.keep best)) := by
  -- The induction is on the alternatives that both let through; those in between differ, and are
  -- passed over.
  induction admitted generalizing slots slots' index index' best with
  | nil =>
      intro p q states
      have refused := List.filter_eq_nil_iff.1 here
      have refused' := List.filter_eq_nil_iff.1 there
      obtain ⟨memo, kept, passed⟩ := tryAlternatives_pass fair.reliable attempt (outer.enter id) []
        bound (fun slot member => by simpa using refused slot member) index best states.faithful
      obtain ⟨memo', kept', passed'⟩ := tryAlternatives_pass fair.reliable' attempt'
        (outer'.enter (m.element id)) [] bound'
        (fun slot member => by simpa using refused' slot member) index' (m.keep best)
        states.faithful'
      rw [List.append_nil] at passed passed'
      rw [passed, passed']
      exact .ok rfl (states.remember kept kept')
  | cons slot more ih =>
      intro p q states
      obtain ⟨skipped, rest, rfl, refused, admitted, later⟩ := List.filter_eq_cons_iff.1 here
      obtain ⟨skipped', rest', rfl, refused', admitted', later'⟩ := List.filter_eq_cons_iff.1 there
      obtain ⟨memo, kept, tried⟩ := tryAlternatives_try fair.reliable attempt (outer.enter id)
        (fun other member => bound other (List.mem_append_left _ member))
        (fun slot member => by simpa using refused slot member) (bound slot (by simp)) admitted
        index best states.faithful
      obtain ⟨memo', kept', tried'⟩ := tryAlternatives_try fair.reliable' attempt'
        (outer'.enter (m.element id)) (fun other member => bound' other (List.mem_append_left _ member))
        (fun slot member => by simpa using refused' slot member) (bound' _ (by simp)) admitted'
        index' (m.keep best) states.faithful'
      rw [tried, tried']
      have others := fun best => ih
        (fun other member => bound other (by simp [member]))
        (fun other member => bound' other (by simp [member])) later later'
        (index + skipped.length + 1) (index' + skipped'.length + 1) best
      exact tryThen_reflects attempts paths choice others _ _ (states.remember kept kept')

/-- **A choice is matched like its image**, if the alternatives that are tried come in the same
order. -/
theorem oneOf_reflects (orderly : m.Orderly) {id : ElementId}
    (choice : m.source.grammar.IsChoice id) :
    m.Reflects Eq (oneOf m.source attempt (outer.enter id) id)
      (oneOf m.target attempt' (outer'.enter (m.element id)) (m.element id)) := by
  obtain ⟨order, tried, bound⟩ := choice.tried fair.wellFormed
  obtain ⟨order', tried', bound'⟩ := (fair.image.isChoice choice).tried fair.wellFormed'
  have answers := fair.reliable.children id
  have answers' := fair.reliable'.children (m.element id)
  rw [tried] at answers
  rw [tried'] at answers'
  unfold oneOf
  refine reflects_bind_query answers answers' ?_
  refine reflects_bind reflects_cursor fun c c' cursors => ?_
  have here : m.input.token? c.position = c.current? := by
    rw [← cursors.reads]
    rfl
  have marked : (m.input.cursorAt c.position).atPlaceholder = c.atPlaceholder := by
    rw [← cursors.reads]
    rfl
  have marked' : (m.input'.cursorAt c.position).atPlaceholder = c'.atPlaceholder := by
    rw [← cursors.reads', ← cursors.position_eq]
    rfl
  rw [cursors.current?_eq fair.inputs]
  cases current_eq : c.current? with
  | none => exact reflects_pure rfl
  | some current =>
      -- The orders may differ, as long as what passes the filter comes in the same order.
      have filtered := orderly id _ _ choice tried tried' c.position current (here.trans current_eq)
      refine reflects_bind (known_reflects fair current.kind) fun type type' known => ?_
      simp only [Setting.letsAt, marked, marked', known.1, known.2] at filtered
      refine reflects_bind (tryAlternatives_reflects fair attempts paths choice bound bound' rfl
        filtered 0 0 none) ?_
      rintro answer _ rfl
      rcases answer with outcome | _ | ⟨outcome, snapshot⟩
      · exact reflects_pure rfl
      · exact reflects_pure rfl
      · exact reflects_bind_eq (reflects_move (moves_restore rfl)) fun _ => reflects_pure rfl

end Choice

/-! ### Choices that are only renamed -/

section Plain

variable (fair : m.Fair) {id : ElementId} {kind : Kind ElementId}

include fair

/-- An alternative is let through at a token if its image is, when the token is a chameleon in
both vocabularies or in neither. -/
theorem letsAt_rename (selective : m.target.predictor.selective = m.source.predictor.selective)
    (chameleon : ∀ type, m.target.grammar.vocabulary.has TokenType.isChameleon type =
      m.source.grammar.vocabulary.has TokenType.isChameleon type)
    (k : Nat) (current : Token) {slot : Slot ElementId}
    (bound : slot.item < m.source.grammar.elements.size) :
    m.target.letsAt m.input' k current (slot.rename m.element) =
      m.source.letsAt m.input k current slot := by
  have placeholder : (m.input'.cursorAt k).atPlaceholder = (m.input.cursorAt k).atPlaceholder := by
    have shown : (m.input'.cursorAt k).current? = (m.input.cursorAt k).current? :=
      fair.inputs.token_eq k
    have marked : (m.input'.cursorAt k).placeholder = (m.input.cursorAt k).placeholder :=
      fair.inputs.placeholder_eq
    unfold Cursor.atPlaceholder
    rw [shown, marked]
  unfold Setting.letsAt Setting.lets
  rw [placeholder, chameleon, selective, fair.options_eq, Slot.rename_isActive, Slot.rename_item,
    fair.image.ofElement_eq fair.wellFormed fair.wellFormed' bound]

/-- The alternatives of a choice that is only renamed are tried in the same order. -/
theorem filter_tried (stands : m.source.grammar.kind? id = some kind)
    (stands' : m.target.grammar.kind? (m.element id) = some (kind.rename m.element m.element))
    {order order' : List (Slot ElementId)} (choice : m.source.grammar.IsChoice id)
    (tried : m.source.grammar.triedOf id = .ok order)
    (tried' : m.target.grammar.triedOf (m.element id) = .ok order')
    {lets lets' : Slot ElementId → Bool}
    (same : ∀ slot, slot.item < m.source.grammar.elements.size →
      lets' (slot.rename m.element) = lets slot) :
    order'.filter lets' = (order.filter lets).map (Slot.rename m.element) := by
  obtain ⟨_, again, bound⟩ := choice.tried fair.wellFormed
  obtain rfl := Except.ok.inj (tried.symm.trans again)
  rw [Grammar.triedOf_of_kind? stands] at tried
  rw [Grammar.triedOf_of_kind? stands',
    Kind.rename_tried fair.image fair.wellFormed fair.wellFormed' stands,
    Except.ok.inj tried] at tried'
  obtain rfl := Except.ok.inj tried'
  rw [List.filter_map]
  exact congrArg _ (List.filter_congr fun slot member => same slot (bound slot member))

/-- If all choices are only renamed and the same alternatives are let through, the alternatives
that are tried come in the same order. -/
theorem orderly_of_renamed
    (renamed : ∀ id kind, m.source.grammar.kind? id = some kind →
      m.target.grammar.kind? (m.element id) = some (kind.rename m.element m.element))
    (same : ∀ k current (slot : Slot ElementId), slot.item < m.source.grammar.elements.size →
      m.target.letsAt m.input' k current (slot.rename m.element) =
        m.source.letsAt m.input k current slot) : m.Orderly := by
  intro id order order' choice tried tried' k current _
  have ⟨alternatives, sortable, stands⟩ := choice
  exact filter_tried fair stands (renamed id _ stands) choice tried tried' (same k current)

end Plain

end Mirror

end Dialect
