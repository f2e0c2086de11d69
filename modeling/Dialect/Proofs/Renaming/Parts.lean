import Dialect.Matching.Element
import Dialect.Proofs.Renaming.Mirror

/-!
# Elements and their images are matched alike

Given two parses that ask for images of the same things (`Mirror.Fair`) and that match the
elements below in mirrored ways (`Mirror.Attempts`), each construct is matched like its image.
Choices, whose alternatives may come in another order, are left to a module of their own.
-/

set_option autoImplicit false

namespace Dialect

namespace Mirror

/-- The second grammar is the image of the first, the inputs show the same, and the parses do not
differ otherwise. -/
structure Fair (m : Mirror) : Prop where
  image : m.source.grammar.Image m.element m.target.grammar
  wellFormed : m.source.grammar.WellFormed
  wellFormed' : m.target.grammar.WellFormed
  reliable : m.source.predictor.Reliable m.source.grammar
  reliable' : m.target.predictor.Reliable m.target.grammar
  options_eq : m.target.options = m.source.options
  cancelled_eq : m.target.cancelled = m.source.cancelled
  inputs : m.Inputs

/-- An element is matched in one parse as its image is in the other. -/
def Attempts (m : Mirror) (attempt attempt' : Attempt) : Prop :=
  ∀ id path path', path.Image m.element m.source.grammar path' →
    m.Reflects Eq (attempt id path) (attempt' (m.element id) path')

variable {m : Mirror}

section Leaves

open Matcher

variable (fair : m.Fair) {path path' : Path} (paths : path.Image m.element m.source.grammar path')

include fair

theorem takeLeaf_reflects (id : ElementId) :
    m.Reflects Eq (takeLeaf id) (takeLeaf (m.element id)) := by
  unfold takeLeaf
  refine reflects_bind_eq (reflects_move moves_mark) fun mark => ?_
  refine reflects_bind_eq (reflects_move (moves_advance fair.inputs)) fun _ => ?_
  refine reflects_bind_eq (reflects_move (moves_complete fair.inputs mark id)) fun _ => ?_
  exact reflects_pure rfl

omit fair in
theorem decline_reflects (word : TokenTypeId) : m.Reflects Eq (decline word) (decline word) := by
  rintro p q ⟨cursors, same, faithful, faithful'⟩
  refine .ok rfl ⟨cursors, ?_, faithful, faithful'⟩
  have waved : q.waved = p.waved := by rw [same]
  change q.wave word = { p.wave word with cursor := q.cursor, memo := q.memo }
  rw [Progress.wave, Progress.wave, waved, cursors.position_eq, same]

include paths

theorem mayFollow_reflects (token : TokenTypeId) :
    m.Reflects Eq (liftM (m.source.mayFollow path token)) (liftM (m.target.mayFollow path' token)) := by
  refine reflects_query_eq (answers_mayFollow fair.reliable _ _ _)
    (answers_mayFollow fair.reliable' _ _ _) ?_
  rw [fair.options_eq]
  exact fair.image.mayFollow_eq fair.wellFormed fair.wellFormed' _ token paths

theorem mustFollow_reflects (token : TokenTypeId) :
    m.Reflects Eq (liftM (m.source.mustFollow path token))
      (liftM (m.target.mustFollow path' token)) := by
  refine reflects_query_eq (answers_mustFollow fair.reliable _ _ _)
    (answers_mustFollow fair.reliable' _ _ _) ?_
  rw [fair.options_eq]
  exact fair.image.mustFollow_eq fair.wellFormed fair.wellFormed' _ token paths

theorem qualifiesName_reflects (next : Option Token) :
    m.Reflects Eq (qualifiesName m.source path next) (qualifiesName m.target path' next) := by
  unfold qualifiesName Vocabulary.dot?
  rw [fair.image.similar.lookup?_eq]
  cases m.source.grammar.vocabulary.lookup? "CHR_DOT" with
  | none => exact reflects_pure rfl
  | some dot =>
      refine reflects_ite (reflects_pure rfl) ?_
      exact reflects_bind_eq (mayFollow_reflects fair paths dot) fun _ => reflects_pure rfl

theorem lacksArguments_reflects (next : Option Token) :
    m.Reflects Eq (lacksArguments m.source path next) (lacksArguments m.target path' next) := by
  unfold lacksArguments Vocabulary.leftParenthesis?
  rw [fair.image.similar.lookup?_eq]
  cases m.source.grammar.vocabulary.lookup? "CHR_LEFT_PARENTHESIS" with
  | none => exact reflects_pure rfl
  | some parenthesis =>
      exact reflects_ite (reflects_pure rfl) (mustFollow_reflects fair paths parenthesis)

omit paths in
theorem get_reflects (id : TokenTypeId) :
    m.Reflects TokenType.Similar (liftM (m.source.grammar.vocabulary.get id) : Matcher TokenType)
      (liftM (m.target.grammar.vocabulary.get id)) :=
  reflects_found (fair.image.similar.get_cases id)

theorem token_reflects (id : ElementId) (type : TokenTypeId) (text : Option String)
    (flavor : Option Category) :
    m.Reflects Eq (token m.source id path type text flavor)
      (token m.target (m.element id) path' type text flavor) := by
  unfold token
  refine reflects_bind reflects_cursor fun c c' cursors => ?_
  rw [cursors.current?_eq fair.inputs, cursors.atPlaceholder_eq fair.inputs,
    cursors.peek?_eq fair.inputs]
  cases c.current? with
  | none => exact reflects_pure rfl
  | some current =>
      have takes := takeLeaf_reflects fair id
      refine reflects_ite takes (reflects_ite (reflects_pure rfl) ?_)
      refine reflects_ite (reflects_pure rfl) (reflects_bind (get_reflects fair _) ?_)
      intro word word' similar
      rw [similar.suppressible_eq, similar.function_eq]
      refine reflects_ite ?_ takes
      refine reflects_bind_eq (qualifiesName_reflects fair paths _) fun _ => ?_
      refine reflects_ite (decline_reflects _) (reflects_ite ?_ takes)
      refine reflects_bind_eq (lacksArguments_reflects fair paths _) fun _ => ?_
      exact reflects_ite (decline_reflects _) takes

omit paths in
/-- The elements that are matched are those of the two grammars. -/
theorem element_reflects (id : ElementId) :
    m.Reflects (fun element element' : Element ElementId =>
        m.source.grammar.kind? id = some element.kind ∧ element.kind.Image m.element element'.kind)
      (liftM (m.source.grammar.element id) : Matcher (Element ElementId))
      (liftM (m.target.grammar.element (m.element id))) := by
  refine reflects_found ?_
  rcases fair.image.element_cases id with ⟨element, element', found, found', -, same⟩ | lost
  · exact Or.inl ⟨element, element', found, found', kind?_of_element found, same⟩
  · exact Or.inr ⟨_, lost⟩

theorem enclosing_reflects (kind : NodeKind) :
    m.Reflects (fun frame frame' => frame'.isSome = frame.isSome)
      (liftM (path.enclosing m.source.grammar kind) : Matcher (Option Frame))
      (liftM (path'.enclosing m.target.grammar kind)) := by
  refine reflects_found ?_
  have same := fair.image.nearest_eq kind paths.ancestors
  unfold Path.enclosing
  generalize Path.nearest m.source.grammar kind path.ancestors = a,
    Path.nearest m.target.grammar kind path'.ancestors = b at same
  cases a <;> cases b <;> simp_all [Functor.map, Except.map]

theorem acceptsReservedWord_reflects (id : ElementId) (word : TokenTypeId) :
    m.Reflects Eq (acceptsReservedWord m.source id path word)
      (acceptsReservedWord m.target (m.element id) path' word) := by
  unfold acceptsReservedWord
  refine reflects_get fun p q states => ?_
  have waved : q.isWaved word = p.isWaved word := by
    have place := states.cursors.position_eq
    rw [Progress.isWaved, Progress.isWaved, place, states.same]
  rw [waved]
  refine reflects_ite (reflects_pure rfl) ?_ p q states
  refine reflects_bind (element_reflects fair id) fun element element' both => ?_
  rw [both.2.isDefinition_eq]
  refine reflects_ite (reflects_pure rfl) ?_
  refine reflects_bind (enclosing_reflects fair paths _) fun frame frame' same => ?_
  rw [same]
  refine reflects_ite (reflects_pure rfl) ?_
  refine reflects_bind reflects_cursor fun c c' cursors => ?_
  rw [cursors.peek?_eq fair.inputs]
  cases c.peek? 1 with
  | none => exact reflects_pure rfl
  | some next => exact mayFollow_reflects fair paths next.kind

theorem identifier_reflects (id : ElementId) :
    m.Reflects Eq (identifier m.source id path) (identifier m.target (m.element id) path') := by
  unfold identifier
  refine reflects_bind reflects_cursor fun c c' cursors => ?_
  rw [cursors.current?_eq fair.inputs, cursors.atPlaceholder_eq fair.inputs]
  cases c.current? with
  | none => exact reflects_pure rfl
  | some current =>
      have takes := takeLeaf_reflects fair id
      refine reflects_ite takes (reflects_bind (get_reflects fair _) ?_)
      intro type type' similar
      rw [similar.identifier_eq, similar.suppressible_eq]
      refine reflects_ite takes (reflects_ite ?_ (reflects_pure rfl))
      refine reflects_bind_eq (acceptsReservedWord_reflects fair paths id _) fun _ => ?_
      exact reflects_ite takes (reflects_pure rfl)

end Leaves

/-! ### What is missing -/

section Missing

open Matcher

variable (fair : m.Fair)

include fair

theorem expected_reflects (code : DiagnosticCode) (id : ElementId) :
    m.Reflects Eq (expected m.source code id) (expected m.target code (m.element id)) := by
  unfold expected
  refine reflects_bind reflects_cursor fun c c' cursors => ?_
  refine reflects_bind_eq (reflects_check (fair.image.missing_eq (cursors.currentRange_eq fair.inputs)
    (cursors.current?_eq fair.inputs) code id)) fun found => ?_
  exact reflects_move (moves_report found)

theorem expectedHere_reflects (id : ElementId) :
    m.Reflects Eq (expectedHere m.source id) (expectedHere m.target (m.element id)) := by
  unfold expectedHere
  exact reflects_bind_eq (reflects_check (fair.image.missingCode_eq id)) fun code =>
    expected_reflects fair code id

theorem addContent_reflects (slot : Slot ElementId) (opened : Nat) (outcome : Outcome) :
    m.Reflects Eq (addContent m.source slot opened outcome)
      (addContent m.target (slot.rename m.element) opened outcome) := by
  unfold addContent
  cases outcome with
  | noMatch =>
      refine reflects_ite (reflects_pure rfl) ?_
      exact reflects_bind_eq (expectedHere_reflects fair slot.item) fun _ => reflects_pure rfl
  | _ => exact reflects_pure rfl

theorem missingPart_reflects (report : Bool) (id : ElementId) :
    m.Reflects Eq (missingPart m.source report id)
      (missingPart m.target report (m.element id)) := by
  unfold missingPart
  exact reflects_ite (expected_reflects fair _ _) (reflects_pure rfl)

theorem unclosed_reflects (closing : ElementId) (range : TextRange) :
    m.Reflects Eq (unclosed m.source closing range) (unclosed m.target (m.element closing) range) := by
  unfold unclosed
  exact reflects_bind_eq (expected_reflects fair _ _) fun _ => reflects_move (moves_annotate _)

end Missing

/-! ### Composites -/

section Composites

open Matcher

variable {attempt attempt' : Attempt} (fair : m.Fair) (attempts : m.Attempts attempt attempt')
  {path path' : Path} (paths : path.Image m.element m.source.grammar path')

include attempts paths

/-- A part in its place is matched like its image. -/
theorem Attempts.at (id : ElementId) (slot : Nat) :
    m.Reflects Eq (attempt id (path.moveTo slot)) (attempt' (m.element id) (path'.moveTo slot)) :=
  attempts id _ _ (paths.moveTo slot)

include fair

omit attempts paths in
/-- A node is completed, and the outcome is the given one. -/
theorem finish_reflects (mark : Mark) (id : ElementId) (outcome : Outcome) :
    m.Reflects Eq (do Cursor.complete mark id; return outcome : Matcher Outcome)
      (do Cursor.complete mark (m.element id); return outcome : Matcher Outcome) :=
  reflects_bind_eq (reflects_move (moves_complete fair.inputs mark id)) fun _ => reflects_pure rfl

omit attempts paths fair in
/-- Nothing has been matched, and the mark is rolled back. -/
theorem giveUp_reflects (mark : Mark) (outcome : Outcome) :
    m.Reflects Eq (do Cursor.rollback mark; return outcome : Matcher Outcome)
      (do Cursor.rollback mark; return outcome : Matcher Outcome) :=
  reflects_bind_eq (reflects_move (moves_rollback mark)) fun _ => reflects_pure rfl

theorem fillSlots_reflects (slots : List (Slot ElementId)) (index tokens : Nat) :
    m.Reflects Eq (fillSlots m.source attempt path slots index tokens)
      (fillSlots m.target attempt' path' (slots.map (Slot.rename m.element)) index tokens) := by
  induction slots generalizing index tokens with
  | nil => exact reflects_pure rfl
  | cons slot rest ih =>
      rw [List.map_cons]
      unfold fillSlots
      rw [Slot.rename_isActive, fair.options_eq]
      refine reflects_ite (ih _ _) ?_
      refine reflects_bind_eq (attempts.at paths slot.item index) fun outcome => ?_
      cases outcome with
      | fullMatch n => exact ih _ _
      | partialMatch n => exact reflects_pure rfl
      | noMatch =>
          refine reflects_ite (ih _ _) (reflects_ite (reflects_pure rfl) ?_)
          exact reflects_bind_eq (expectedHere_reflects fair slot.item) fun _ => reflects_pure rfl

theorem sequence_reflects (id : ElementId) (slots : List (Slot ElementId)) :
    m.Reflects Eq (Matcher.sequence m.source attempt path id slots)
      (Matcher.sequence m.target attempt' path' (m.element id) (slots.map (Slot.rename m.element))) := by
  unfold Matcher.sequence
  refine reflects_bind_eq (reflects_move moves_mark) fun mark => ?_
  refine reflects_bind_eq (fillSlots_reflects fair attempts paths slots 0 0) fun tally => ?_
  exact reflects_ite (giveUp_reflects mark _) (finish_reflects fair mark id _)

theorem content_reflects (slot : Slot ElementId) :
    m.Reflects Eq (content m.source attempt path slot)
      (content m.target attempt' path' (slot.rename m.element)) := by
  unfold content
  rw [Slot.rename_isActive, fair.options_eq]
  exact reflects_ite (attempts.at paths slot.item 1) (reflects_pure rfl)

omit fair in
theorem closeAll_reflects (closing : ElementId) (opened : List TextRange) :
    m.Reflects Eq (closeAll attempt path closing opened)
      (closeAll attempt' path' (m.element closing) opened) := by
  induction opened with
  | nil => exact reflects_pure rfl
  | cons range outer ih =>
      unfold closeAll
      refine reflects_bind_eq (attempts.at paths closing 2) fun outcome => ?_
      refine reflects_ite (reflects_bind_eq ih fun _ => reflects_pure rfl) (reflects_pure rfl)

theorem close_reflects (closing : ElementId) (opened : List TextRange) (tally : Tally) :
    m.Reflects Eq (close m.source attempt path closing opened tally)
      (close m.target attempt' path' (m.element closing) opened tally) := by
  unfold close
  refine reflects_bind_eq (closeAll_reflects attempts paths closing opened) fun result => ?_
  rcases result with ⟨closed, _ | ⟨innermost, others⟩⟩
  · exact reflects_pure rfl
  · refine reflects_ite ?_ (reflects_pure rfl)
    exact reflects_bind_eq (unclosed_reflects fair closing innermost) fun _ => reflects_pure rfl

/-- What was opened is closed, and the node is completed. -/
theorem conclude_reflects (mark : Mark) (id closing : ElementId) (opened : List TextRange)
    (tally : Tally) :
    m.Reflects Eq (do
        let tally ← close m.source attempt path closing opened tally
        Cursor.complete mark id
        return tally.outcome)
      (do
        let tally ← close m.target attempt' path' (m.element closing) opened tally
        Cursor.complete mark (m.element id)
        return tally.outcome) :=
  reflects_bind_eq (close_reflects fair attempts paths closing opened tally) fun closed =>
    finish_reflects fair mark id closed.outcome

theorem wrapper_reflects (id opening : ElementId) (slot : Slot ElementId) (closing : ElementId) :
    m.Reflects Eq (wrapper m.source attempt path id opening slot closing)
      (wrapper m.target attempt' path' (m.element id) (m.element opening) (slot.rename m.element)
        (m.element closing)) := by
  unfold wrapper
  refine reflects_bind_eq (reflects_move moves_mark) fun mark => ?_
  refine reflects_bind reflects_cursor fun c c' cursors => ?_
  refine reflects_bind_eq (reflects_check (cursors.currentRange_eq fair.inputs)) fun range => ?_
  refine reflects_bind_eq (attempts.at paths opening 0) fun outcome => ?_
  refine reflects_ite (giveUp_reflects mark _) ?_
  have concludes := conclude_reflects fair attempts paths mark id closing [range]
  rw [Slot.rename_isActive, fair.options_eq]
  refine reflects_ite ?_ (reflects_bind_eq (reflects_pure rfl) concludes)
  refine reflects_bind_eq (content_reflects fair attempts paths slot) fun outcome => ?_
  exact reflects_bind_eq (addContent_reflects fair slot 1 outcome) concludes

theorem openAll_reflects (opening : ElementId) (rounds : Nat) (opened : List TextRange) :
    m.Reflects Eq (openAll attempt path opening rounds opened)
      (openAll attempt' path' (m.element opening) rounds opened) := by
  induction rounds generalizing opened with
  | zero => exact reflects_throw _
  | succ rounds ih =>
      unfold openAll
      refine reflects_bind reflects_cursor fun c c' cursors => ?_
      refine reflects_bind_eq (reflects_check (cursors.currentRange_eq fair.inputs)) fun range => ?_
      refine reflects_bind_eq (attempts.at paths opening 0) fun outcome => ?_
      exact reflects_ite (ih _) (reflects_pure rfl)

theorem balanced_reflects (id opening : ElementId) (slot : Slot ElementId) (closing : ElementId) :
    m.Reflects Eq (balanced m.source attempt path id opening slot closing)
      (balanced m.target attempt' path' (m.element id) (m.element opening) (slot.rename m.element)
        (m.element closing)) := by
  unfold balanced
  refine reflects_bind_eq (reflects_move moves_mark) fun mark => ?_
  refine reflects_bind reflects_cursor fun c c' cursors => ?_
  rw [cursors.remaining_eq fair.inputs]
  refine reflects_bind_eq (openAll_reflects fair attempts paths opening _ _) fun opened => ?_
  refine reflects_bind_eq (content_reflects fair attempts paths slot) fun outcome => ?_
  refine reflects_ite (reflects_ite ?_ (giveUp_reflects mark _)) ?_
  · exact reflects_bind_eq (reflects_move (moves_release mark)) fun _ => reflects_pure rfl
  · exact reflects_bind_eq (addContent_reflects fair slot _ outcome)
      (conclude_reflects fair attempts paths mark id closing opened)

theorem repeatItem_reflects (item : ElementId) (separator : Option ElementId)
    (rounds tokens : Nat) :
    m.Reflects Eq (repeatItem m.source attempt path item separator rounds tokens)
      (repeatItem m.target attempt' path' (m.element item) (separator.map m.element) rounds tokens) := by
  induction rounds generalizing tokens with
  | zero => exact reflects_throw _
  | succ rounds ih =>
      cases separator with
      | none =>
          simp only [repeatItem, Option.map_none]
          refine reflects_bind_eq (attempts.at paths item 0) fun outcome => ?_
          cases outcome with
          | fullMatch n => exact ih _
          | _ => exact reflects_pure rfl
      | some between =>
          simp only [repeatItem, Option.map_some]
          refine reflects_bind_eq (attempts.at paths between 1) fun separated => ?_
          refine reflects_ite (reflects_pure rfl) ?_
          refine reflects_bind_eq (attempts.at paths item 0) fun outcome => ?_
          cases outcome with
          | fullMatch n => exact ih _
          | partialMatch n => exact reflects_pure rfl
          | noMatch =>
              exact reflects_bind_eq (expected_reflects fair _ item) fun _ => reflects_pure rfl

theorem iteration_reflects (id item : ElementId) (separator : Option ElementId) :
    m.Reflects Eq (iteration m.source attempt path id item separator)
      (iteration m.target attempt' path' (m.element id) (m.element item)
        (separator.map m.element)) := by
  unfold iteration
  refine reflects_bind_eq (reflects_move moves_mark) fun mark => ?_
  refine reflects_bind_eq (attempts.at paths item 0) fun outcome => ?_
  cases outcome with
  | noMatch => exact giveUp_reflects mark _
  | partialMatch n => exact finish_reflects fair mark id _
  | fullMatch n =>
      refine reflects_bind reflects_cursor fun c c' cursors => ?_
      rw [cursors.remaining_eq fair.inputs]
      refine reflects_bind_eq (repeatItem_reflects fair attempts paths item separator _ n) fun tally => ?_
      exact finish_reflects fair mark id _

theorem matchParts_reflects (separator : ElementId) (report : Bool) (parts : List ElementId)
    (index tokens : Nat) :
    m.Reflects Eq (matchParts m.source attempt path separator report parts index tokens)
      (matchParts m.target attempt' path' (m.element separator) report (parts.map m.element) index
        tokens) := by
  induction parts generalizing index tokens with
  | nil => exact reflects_pure rfl
  | cons part rest ih =>
      rw [List.map_cons]
      unfold matchParts
      dsimp only
      refine reflects_ite (reflects_bind_eq (reflects_pure rfl) fun separated => ?_)
        (reflects_bind_eq (reflects_map _ (attempts.at paths separator index)) fun separated => ?_)
      all_goals
        refine reflects_ite ?_
          (reflects_bind_eq (attempts.at paths part index) fun outcome => reflects_ite ?_ (ih _ _))
        · exact reflects_bind_eq (missingPart_reflects fair report separator) fun _ =>
            reflects_pure rfl
        · exact reflects_bind_eq (missingPart_reflects fair report part) fun _ => reflects_pure rfl

/-- The best variant so far with its parts renamed. -/
def Variant (m : Mirror) (best best' : Option (Outcome × List ElementId)) : Prop :=
  best' = best.map (Prod.map id (List.map m.element))

theorem tryVariants_reflects (separator : ElementId) (variants : List (List ElementId))
    {best best' : Option (Outcome × List ElementId)} (kept : m.Variant best best') :
    m.Reflects (fun answer answer' => answer' = answer.map id
        (Option.map (Prod.map id (List.map m.element))))
      (tryVariants m.source attempt path separator variants best)
      (tryVariants m.target attempt' path' (m.element separator) (variants.map (List.map m.element))
        best') := by
  induction variants generalizing best best' with
  | nil => exact reflects_pure (congrArg Sum.inr kept)
  | cons variant rest ih =>
      rw [List.map_cons]
      unfold tryVariants
      refine reflects_bind_eq (reflects_move moves_mark) fun mark => ?_
      refine reflects_bind_eq (matchParts_reflects fair attempts paths separator false variant 0 0)
        fun outcome => ?_
      refine reflects_ite (reflects_bind_eq (reflects_move (moves_release mark)) fun _ =>
        reflects_pure rfl) ?_
      refine reflects_bind_eq (reflects_move (moves_rollback mark)) fun _ => ?_
      have improves_eq : improves outcome best' = improves outcome best := by
        obtain rfl := kept
        cases best <;> rfl
      rw [improves_eq]
      exact reflects_ite (ih rfl) (ih kept)

omit attempts paths fair in
theorem insertVariant_map (f : ElementId → ElementId) (variant : List ElementId)
    (variants : List (List ElementId)) :
    insertVariant (variant.map f) (variants.map (List.map f)) =
      (insertVariant variant variants).map (List.map f) := by
  induction variants with
  | nil => rfl
  | cons other rest ih =>
      simp only [List.map_cons, insertVariant, List.length_map, ih]
      split <;> rfl

omit attempts paths fair in
theorem longestFirst_map (f : ElementId → ElementId) (variants : List (List ElementId)) :
    longestFirst (variants.map (List.map f)) = (longestFirst variants).map (List.map f) := by
  induction variants with
  | nil => rfl
  | cons variant rest ih =>
      have step : ∀ variant rest, longestFirst (variant :: rest) =
        insertVariant variant (longestFirst rest : List (List ElementId)) := fun _ _ => rfl
      rw [List.map_cons, step, step, ih, insertVariant_map]

theorem qualified_reflects (id : ElementId) (variants : List (List ElementId))
    (separator : ElementId) :
    m.Reflects Eq (qualified m.source attempt path id variants separator)
      (qualified m.target attempt' path' (m.element id) (variants.map (List.map m.element))
        (m.element separator)) := by
  unfold qualified
  rw [longestFirst_map]
  refine reflects_bind_eq (reflects_move moves_mark) fun mark => ?_
  have nothing : m.Variant none none := rfl
  refine reflects_bind (tryVariants_reflects fair attempts paths separator _ nothing) ?_
  rintro answer _ rfl
  rcases answer with outcome | _ | ⟨outcome, variant⟩
  · exact finish_reflects fair mark id _
  · exact giveUp_reflects mark _
  · refine reflects_bind_eq (matchParts_reflects fair attempts paths separator true variant 0 0)
      fun outcome => ?_
    exact finish_reflects fair mark id _

end Composites

end Mirror

end Dialect
