import Dialect.Proofs.Matching.Record
import Dialect.Proofs.Parsing.Opening

/-!
# Reporting what was expected

A missing element can be described, wherever it is missing: the only thing that can go
wrong is that a token does not fit into a source text.
-/

set_option autoImplicit false

namespace Dialect

section Looking

variable {g : Grammar} {input : Input} {around : Path} {position : Nat} {token : Token}

theorem token?_lt_size (found : input.token? position = some token) : position < input.size := by
  cases index : input.significant[position]? with
  | none =>
      simp only [Input.token?, Input.cursorAt, Cursor.current?, Cursor.peek?, Nat.add_zero,
        index] at found
      cases found
  | some index => exact (Array.getElem?_eq_some_iff.1 ‹_›).1

theorem mem_of_token? (found : input.token? position = some token) : token ∈ input.tokens := by
  unfold Input.token? Cursor.current? Cursor.peek? at found
  split at found
  · exact Array.mem_of_getElem? found
  · cases found

theorem range_eq_error {fault : Fault} (raised : token.range = .error fault) :
    fault = .textRange ∧ TextRange.offsetLimit ≤ token.offset + token.text.utf8ByteSize := by
  unfold Token.range TextRange.sized at raised
  split at raised
  · cases raised
  · rename_i misfit
    cases raised
    exact ⟨rfl, Nat.le_of_not_lt misfit⟩

/-- A place has no range if its token ends beyond the offsets that can be counted, or at the end of
the input, if the last token does. -/
theorem currentRange_eq_error {fault : Fault}
    (raised : (input.cursorAt position).currentRange = .error fault) :
    fault = .textRange ∧ ∃ token, (input.token? position = some token ∨
        input.token? position = none ∧ input.tokens.back? = some token) ∧
      TextRange.offsetLimit ≤ token.offset + token.text.utf8ByteSize := by
  unfold Cursor.currentRange at raised
  cases here : (input.cursorAt position).current? with
  | some token =>
      rw [here] at raised
      obtain ⟨rfl, far⟩ := range_eq_error raised
      exact ⟨rfl, token, .inl here, far⟩
  | none =>
      rw [here] at raised
      unfold Cursor.endOffset at raised
      cases last : (input.cursorAt position).tokens.back? with
      | none =>
          rw [last] at raised
          cases raised
      | some token =>
          rw [last] at raised
          cases ranged : token.range with
          | ok range =>
              simp [ranged, bind, Except.bind, pure, Except.pure] at raised
          | error other =>
              obtain ⟨rfl, far⟩ := range_eq_error ranged
              simp only [ranged, bind, Except.bind, Except.error.injEq] at raised
              exact ⟨raised.symm, token, .inr ⟨here, last⟩, far⟩

theorem raises_range (member : token ∈ input.tokens) :
    Raises (Excused g input around) token.range := by
  intro fault raised
  obtain ⟨rfl, far⟩ := range_eq_error raised
  exact ⟨token, member, far⟩

theorem raises_endOffset (input : Input) (position : Nat) :
    Raises (Excused g input around) (input.cursorAt position).endOffset := by
  unfold Cursor.endOffset
  cases last : (input.cursorAt position).tokens.back? with
  | none => exact raises_ok 0
  | some token =>
      have member : token ∈ input.tokens := Array.mem_of_back? last
      exact raises_bind (raises_range member) fun _ _ => raises_ok _

theorem raises_currentRange (input : Input) (position : Nat) :
    Raises (Excused g input around) (input.cursorAt position).currentRange := by
  unfold Cursor.currentRange
  cases found : (input.cursorAt position).current? with
  | none => exact raises_bind (raises_endOffset input position) fun _ _ => raises_ok _
  | some token => exact raises_range (mem_of_token? found)

end Looking

section Describing

variable {g : Grammar} {allowed : Fault → Prop}

theorem Grammar.WellFormed.follow_lt (wellFormed : g.WellFormed) {id : ElementId} (steps : Nat)
    (bound : id < g.elements.size) : g.follow steps id < g.elements.size := by
  induction steps generalizing id with
  | zero => exact bound
  | succ steps ih =>
      unfold Grammar.follow
      cases found : g.target? id with
      | none => exact bound
      | some target =>
          obtain ⟨name, member⟩ := wellFormed.targets id target (Grammar.target?_eq_some.1 found)
          exact ih (wellFormed.roots name target member)

/-- Whatever an element leads to stands in the grammar, and the vocabulary knows its
type if it is a token. -/
theorem Grammar.WellFormed.matching_ok (wellFormed : g.WellFormed) {id : ElementId}
    (bound : id < g.elements.size) :
    ∃ element, g.matching id = .ok element ∧ ∀ type text flavor,
      element.kind = .token type text flavor → type < g.vocabulary.types.size := by
  obtain ⟨element, found⟩ := element_of_lt bound
  obtain ⟨last, reached⟩ :=
    element_of_lt (wellFormed.follow_lt (g.rules.length + 1) bound)
  refine ⟨last, ?_, fun type text flavor kind => ?_⟩
  · unfold Grammar.matching
    rw [found]
    exact reached
  · have stands := kind?_of_element reached
    rw [kind] at stands
    exact wellFormed.placed _ _ stands

theorem raises_describe (wellFormed : g.WellFormed) {id : ElementId}
    (bound : id < g.elements.size) : Raises allowed (g.describe id) := by
  obtain ⟨element, reached, known⟩ := wellFormed.matching_ok bound
  unfold Grammar.describe
  rw [reached]
  refine raises_bind (raises_ok element) fun other same => ?_
  obtain rfl := Except.ok.inj same
  cases kind : element.kind with
  | token type text flavor =>
      obtain ⟨found, known⟩ := get_of_lt (known type text flavor kind)
      simp only [known]
      refine raises_bind (raises_ok found) fun value _ => ?_
      cases text <|> value.value <;> exact raises_ok _
  | _ => exact raises_ok _

theorem describe_ok (wellFormed : g.WellFormed) {id : ElementId}
    (bound : id < g.elements.size) : ∃ words, g.describe id = .ok words :=
  (raises_describe wellFormed bound).exists_ok

theorem missingCode_ok (wellFormed : g.WellFormed) {id : ElementId}
    (bound : id < g.elements.size) : ∃ code, g.missingCode id = .ok code := by
  obtain ⟨element, reached, -⟩ := wellFormed.matching_ok bound
  unfold Grammar.missingCode
  rw [reached]
  cases kind : element.kind <;> exact ⟨_, by simp [bind, Except.bind, kind, pure, Except.pure]; rfl⟩

theorem raises_reservedWordHint (wellFormed : g.WellFormed) {id : ElementId}
    (bound : id < g.elements.size) {token : Token}
    (known : token.kind < g.vocabulary.types.size) :
    Raises allowed (g.reservedWordHint id token) := by
  obtain ⟨element, reached, -⟩ := wellFormed.matching_ok bound
  obtain ⟨type, found⟩ := get_of_lt known
  unfold Grammar.reservedWordHint
  rw [found, reached]
  refine raises_bind (raises_ok type) fun _ _ => raises_ite (raises_ok _) ?_
  exact raises_bind (raises_ok element) fun _ _ => raises_ite (raises_ok _) (raises_ok _)

end Describing

section Reporting

variable {s : Setting} {input : Input} {around : Path} (calm : Prop) {p : Progress}

theorem raises_missing (stage : Stage s input) {id : ElementId}
    (bound : id < s.grammar.elements.size) (code : DiagnosticCode) (position : Nat) :
    Raises (Excused s.grammar input around)
      ((input.cursorAt position).missing s.grammar code id) := by
  unfold Cursor.missing
  refine raises_bind (raises_currentRange input position) fun range _ => ?_
  refine raises_bind (raises_describe stage.wellFormed bound) fun expected _ => ?_
  cases found : (input.cursorAt position).current? with
  | none => exact raises_ok _
  | some token =>
      have known := stage.known token (mem_of_token? found)
      exact raises_bind (raises_reservedWordHint stage.wellFormed bound known) fun _ _ =>
        raises_ok _

theorem proceeds_report (sound : p.Sound s.grammar input) (found : Diagnostic) :
    Proceeds s.grammar calm p 0 [.diagnostic found]
      { p with cursor := p.cursor.extend 0 [.diagnostic found] } := by
  have inside := (Proceeds.refl calm sound).inside
  exact ⟨⟨rfl, rfl, fun _ member => member, fun _ => rfl, fun _ none => none⟩, rfl, inside,
    sound.faithful⟩

/-- A missing element is reported. -/
theorem ensures_expected (stage : Stage s input) (sound : p.Sound s.grammar input)
    {id : ElementId} (bound : id < s.grammar.elements.size) (code : DiagnosticCode) :
    Ensures (Excused s.grammar input around) (Matcher.expected s code id) p fun _ q =>
      ∃ found, Missing s input code id p.cursor.position found ∧
        Proceeds s.grammar calm p 0 [.diagnostic found] q := by
  have same : p.cursor.missing s.grammar code id =
      (input.cursorAt p.cursor.position).missing s.grammar code id := by
    rw [← sound.reads]
    rfl
  unfold Matcher.expected
  refine ensures_bind_of_ok cursor_eq ?_
  rw [same]
  refine ensures_bind_check (raises_missing stage bound code _) fun found missing => ?_
  exact ensures_of_ok (move_eq (Cursor.report_eq found))
    ⟨found, missing, proceeds_report calm sound found⟩

/-- A missing element is reported under the code that belongs to it. -/
theorem ensures_expectedHere (stage : Stage s input) (sound : p.Sound s.grammar input)
    {id : ElementId} (bound : id < s.grammar.elements.size) :
    Ensures (Excused s.grammar input around) (Matcher.expectedHere s id) p fun _ q =>
      ∃ found, MissingHere s input id p.cursor.position found ∧
        Proceeds s.grammar calm p 0 [.diagnostic found] q := by
  obtain ⟨code, code_eq⟩ := missingCode_ok stage.wellFormed bound
  unfold Matcher.expectedHere
  rw [code_eq]
  refine ensures_bind_of_ok rfl ?_
  refine (ensures_expected calm stage sound bound code).imp fun _ q => ?_
  rintro ⟨found, missing, moved⟩
  exact ⟨found, ⟨code, code_eq, missing⟩, moved⟩

/-- A missing element is reported where the current token stands, and if that has no range, nothing
can be reported. -/
theorem missing_anchored (stage : Stage s input) (code : DiagnosticCode) {id : ElementId}
    (bound : id < s.grammar.elements.size) (position : Nat) :
    match (input.cursorAt position).currentRange with
    | .ok range => ∃ found, Missing s input code id position found ∧ found.range = range
    | .error fault => (input.cursorAt position).missing s.grammar code id = .error fault := by
  obtain ⟨words, named⟩ := describe_ok stage.wellFormed bound
  unfold Missing Cursor.missing
  cases (input.cursorAt position).currentRange with
  | error fault => rfl
  | ok range =>
      rw [named]
      cases found : (input.cursorAt position).current? with
      | none => exact ⟨_, rfl, rfl⟩
      | some token =>
          obtain ⟨hint, asked⟩ : ∃ hint, s.grammar.reservedWordHint id token = .ok hint :=
            (raises_reservedWordHint stage.wellFormed bound
              (stage.known token (mem_of_token? found))).exists_ok
          refine ⟨⟨code, "expected " ++ words ++ ", found '" ++ token.text ++ "'", range,
            hint, []⟩, ?_, rfl⟩
          simp only [bind, Except.bind, asked, pure, Except.pure]

/-- Reporting a missing element adds a diagnostic to the record that is anchored at the current
token, unless that has no range. -/
theorem expected_anchored (stage : Stage s input) (code : DiagnosticCode) {id : ElementId}
    (bound : id < s.grammar.elements.size) (sound : p.Sound s.grammar input) :
    match (input.cursorAt p.cursor.position).currentRange with
    | .ok range => ∃ found, Missing s input code id p.cursor.position found ∧ found.range = range ∧
        Matcher.expected s code id p = .ok () (p.moveTo (p.cursor.extend 0 [.diagnostic found]))
    | .error fault => Matcher.expected s code id p = .error fault p := by
  have same : p.cursor.missing s.grammar code id =
      (input.cursorAt p.cursor.position).missing s.grammar code id := by
    rw [← sound.reads]
    rfl
  have missing := missing_anchored stage code bound p.cursor.position
  unfold Matcher.expected
  rw [bind_apply, cursor_eq]
  dsimp only
  rw [same]
  cases ranged : (input.cursorAt p.cursor.position).currentRange with
  | error fault =>
      rw [ranged] at missing
      rw [missing]
      rfl
  | ok range =>
      rw [ranged] at missing
      obtain ⟨found, found_eq, anchored⟩ := missing
      rw [show (input.cursorAt p.cursor.position).missing s.grammar code id = .ok found from found_eq]
      exact ⟨found, found_eq, anchored, move_eq (Cursor.report_eq found)⟩

end Reporting

end Dialect
