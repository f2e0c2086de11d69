import Dialect.Matching.Sequence
import Dialect.Proofs.Matching.Expectation

/-!
# Sequences keep the contract

What filling slots comes to is put together slot by slot (`Filling`): a slot is passed over,
left out or filled.
-/

set_option autoImplicit false

namespace Dialect

variable {s : Setting} {input : Input} {around outer : Path} {terms : Terms} {depth : Nat}
  {attempt : Attempt} {calm : Prop} {id : ElementId} {p q r : Progress}
  {slot : Slot ElementId} {rest : List (Slot ElementId)}

/-! ### Slots that may be entered -/

/-- A calm parse may enter the leading slots at a position, and all of them behind it. -/
structure Terms.Licenses (terms : Terms) (calm : Prop) (version depth position : Nat)
    (slots : List (Slot ElementId)) : Prop where
  leads : calm → ∀ item ∈ Kind.leadingAt version slots, terms.licence item position depth
  later : calm → ∀ slot ∈ slots, ∀ beyond, position < beyond →
    terms.licence slot.item beyond depth

namespace Terms.Licenses

variable {version position : Nat}
  (licensed : terms.Licenses calm version depth position (slot :: rest))

include licensed

theorem first (active : slot.isActive version = true) :
    calm → terms.licence slot.item position depth := by
  intro quiet
  apply licensed.leads quiet
  simp [Kind.leadingAt, active]

theorem pass (inactive : slot.isActive version = false) :
    terms.Licenses calm version depth position rest := by
  refine ⟨fun quiet item leading => ?_, fun quiet other member => ?_⟩
  · apply licensed.leads quiet
    simpa [Kind.leadingAt, inactive] using leading
  · exact licensed.later quiet other (List.mem_cons_of_mem _ member)

theorem leave (active : slot.isActive version = true) (optional : slot.optional = true) :
    terms.Licenses calm version depth position rest := by
  refine ⟨fun quiet item leading => ?_, fun quiet other member => ?_⟩
  · apply licensed.leads quiet
    simp [Kind.leadingAt, active, optional, leading]
  · exact licensed.later quiet other (List.mem_cons_of_mem _ member)

theorem beyond {further : Nat} (behind : position < further) :
    terms.Licenses calm version depth further rest := by
  refine ⟨fun quiet item leading => ?_, fun quiet other member position beyond => ?_⟩
  · obtain ⟨other, member, -, rfl⟩ := Kind.exists_of_mem_leadingAt leading
    exact licensed.later quiet other (List.mem_cons_of_mem _ member) further behind
  · exact licensed.later quiet other (List.mem_cons_of_mem _ member) position
      (Nat.lt_trans behind beyond)

end Terms.Licenses

/-! ### Filling slots -/

/-- What filling the slots comes to when `tokens` were taken before them. -/
def Filling (s : Setting) (input : Input) (terms : Terms) (calm : Prop) (id : ElementId)
    (outer : Path) (slots : List (Slot ElementId)) (index tokens : Nat) (p : Progress)
    (tally : Tally) (q : Progress) : Prop :=
  ∃ n events, Proceeds s.grammar calm p n events q ∧ tally.tokens = tokens + n ∧
    (tally.tokens = 0 → calm → p.Eager → ∀ item ∈ Kind.leadingAt s.options.version slots,
      terms.idle item p.cursor.position) ∧
    (0 < tally.tokens → Filled s input (terms.below id outer)
      slots index tally.complete p.cursor.position (p.cursor.position + n) events)

namespace Filling

variable {index tokens n : Nat} {tally : Tally} {events : List Event}

theorem pass (inactive : slot.isActive s.options.version = false)
    (others : Filling s input terms calm id outer rest (index + 1) tokens p tally q) :
    Filling s input terms calm id outer (slot :: rest) index tokens p tally q := by
  obtain ⟨n, events, moved, tokens_eq, idle, filled⟩ := others
  refine ⟨n, events, moved, tokens_eq, ?_, fun positive => .pass inactive (filled positive)⟩
  simpa [Kind.leadingAt, inactive] using idle

/-- The slot is left out, for nothing came of it. -/
theorem leave (active : slot.isActive s.options.version = true) (optional : slot.optional = true)
    (moved : Proceeds s.grammar calm p 0 [] q)
    (nothing : calm → p.Eager → terms.idle slot.item p.cursor.position)
    (others : Filling s input terms calm id outer rest (index + 1) tokens q tally r) :
    Filling s input terms calm id outer (slot :: rest) index tokens p tally r := by
  obtain ⟨n, events, movedOn, tokens_eq, idle, filled⟩ := others
  have here : q.cursor.position = p.cursor.position := moved.position
  rw [here] at filled idle
  have both := moved.trans movedOn
  rw [Nat.zero_add, List.nil_append] at both
  refine ⟨n, events, both, tokens_eq, fun none quiet eager item leading => ?_,
    fun positive => .leave active optional (filled positive)⟩
  simp only [Kind.leadingAt, active, optional, if_true, List.mem_cons] at leading
  rcases leading with rfl | behind
  · exact nothing quiet eager
  · exact idle none quiet (moved.eager quiet eager) item behind

theorem fill (active : slot.isActive s.options.version = true) (positive : 0 < n)
    (moved : Proceeds s.grammar calm p n events q)
    (matched : terms.below id outer index slot.item true p.cursor.position
      (p.cursor.position + n) events)
    (others : Filling s input terms calm id outer rest (index + 1) (tokens + n) q tally r) :
    Filling s input terms calm id outer (slot :: rest) index tokens p tally r := by
  obtain ⟨k, more, movedOn, tokens_eq, -, filled⟩ := others
  have here : q.cursor.position = p.cursor.position + n := moved.position
  rw [here, Nat.add_assoc] at filled
  refine ⟨n + k, events ++ more, moved.trans movedOn, by omega, fun none => ?_,
    fun taken => .fill active matched (filled taken)⟩
  omega

/-- A slot that is matched in part is the last. -/
theorem fillPart (active : slot.isActive s.options.version = true) (positive : 0 < n)
    (moved : Proceeds s.grammar calm p n events q)
    (matched : terms.below id outer index slot.item false p.cursor.position
      (p.cursor.position + n) events) :
    Filling s input terms calm id outer (slot :: rest) index tokens p ⟨tokens + n, false⟩ q := by
  refine ⟨n, events, moved, rfl, fun none => ?_, fun _ => .fillPart active matched⟩
  dsimp only at none
  omega

/-- A required slot of which nothing came is the last. -/
theorem miss (stage : Stage s input) (bound : slot.item < s.grammar.elements.size)
    (sound : p.Sound s.grammar input) (active : slot.isActive s.options.version = true)
    (required : slot.optional = false) (moved : Proceeds s.grammar calm p 0 [] q)
    (nothing : calm → p.Eager → terms.idle slot.item p.cursor.position) :
    Ensures (Excused s.grammar input around)
      (if tokens = 0 then return ⟨0, false⟩ else do
        Matcher.expectedHere s slot.item
        return ⟨tokens, false⟩) q
      (Filling s input terms calm id outer (slot :: rest) index tokens p) := by
  by_cases untouched : tokens = 0
  · rw [if_pos untouched]
    refine ensures_pure ⟨0, [], moved, by simp [untouched], fun _ quiet eager item leading => ?_,
      fun positive => absurd positive (Nat.lt_irrefl 0)⟩
    obtain rfl : item = slot.item := by
      simpa [Kind.leadingAt, active, required] using leading
    exact nothing quiet eager
  · rw [if_neg untouched]
    refine ensures_bind (ensures_expectedHere calm stage (moved.sound sound) bound) ?_
    rintro - r ⟨found, missing, reported⟩
    have here : q.cursor.position = p.cursor.position := moved.position
    rw [here] at missing
    exact ensures_pure ⟨0, _, moved.trans reported, rfl, fun none => absurd none untouched,
      fun _ => .miss active required missing⟩

end Filling

/-- Filling slots, the first of which are behind, comes to what is promised. -/
theorem fillSlots_honours (stage : Stage s input)
    (honest : attempt.Honours s input around terms depth calm)
    (within : outer.Within s.grammar around) {all slots : List (Slot ElementId)}
    (stands : s.grammar.kind? id = some (.sequence all)) {index tokens : Nat}
    (left : all.drop index = slots) (sound : p.Sound s.grammar input) (level : p.depth = depth)
    (licensed : terms.Licenses calm s.options.version depth p.cursor.position slots) :
    Ensures (Excused s.grammar input around)
      (Matcher.fillSlots s attempt (outer.enter id) slots index tokens) p
      (Filling s input terms calm id outer slots index tokens p) := by
  induction slots generalizing index tokens p with
  | nil =>
      refine ensures_pure ⟨0, [], .refl calm sound, rfl, fun _ _ _ item leading => ?_,
        fun _ => .done index p.cursor.position⟩
      exact absurd leading List.not_mem_nil
  | cons slot rest ih =>
      have found : all[index]? = some slot := by
        have first : (all.drop index)[0]? = some slot := by simp [left]
        simpa using first
      have leftRest : all.drop (index + 1) = rest := by
        rw [← List.drop_drop, left]
        rfl
      unfold Matcher.fillSlots
      cases active : slot.isActive s.options.version with
      | false =>
          rw [if_pos (by decide)]
          exact (ih leftRest sound level (licensed.pass active)).imp fun _ _ others =>
            others.pass active
      | true =>
          rw [if_neg (by decide)]
          have bound : slot.item < s.grammar.elements.size := Grammar.lt_of_isSome
            (stage.wellFormed.placed id _ stands slot (List.mem_of_getElem? found)).2
          have place : Path.Within s.grammar (⟨id, index⟩ :: outer) around := by
            apply within.push stands
            intro slots same
            cases same
            exact (List.getElem?_eq_some_iff.1 found).1
          refine ensures_bind
            (honest slot.item bound _ p place sound level (licensed.first active)) ?_
          rintro outcome q ⟨events, moved, matched⟩
          have soundNext := moved.sound sound
          have levelNext : q.depth = depth := moved.keeps.depth.trans level
          have here : q.cursor.position = p.cursor.position + outcome.tokens := moved.position
          cases outcome with
          -- A slot may be left only at the position at which the terms already license what
          -- follows.
          | noMatch =>
              obtain ⟨rfl, nothing⟩ := matched
              cases optional : slot.optional with
              | true =>
                  have licensedNext := licensed.leave active optional
                  rw [← show q.cursor.position = p.cursor.position from here] at licensedNext
                  exact (ih leftRest soundNext levelNext licensedNext).imp fun _ _ others =>
                    others.leave active optional moved nothing
              | false => exact Filling.miss stage bound sound active optional moved nothing
          | partialMatch n => exact ensures_pure (.fillPart active matched.1 moved matched.2)
          | fullMatch n =>
              have positive := matched.1
              have further : p.cursor.position < q.cursor.position := by
                rw [here]
                exact Nat.lt_add_of_pos_right positive
              exact (ih leftRest soundNext levelNext (licensed.beyond further)).imp
                fun _ _ others => others.fill active positive moved matched.2

/-- What comes of a sequence. -/
theorem sequence_honours (stage : Stage s input)
    (honest : attempt.Honours s input around terms depth calm)
    (within : outer.Within s.grammar around) {slots : List (Slot ElementId)}
    (stands : s.grammar.kind? id = some (.sequence slots)) (sound : p.Sound s.grammar input)
    (level : p.depth = depth)
    (leads : calm → ∀ item ∈ Kind.leadingAt s.options.version slots,
      terms.licence item p.cursor.position depth)
    (later : calm → ∀ slot ∈ slots, ∀ position, p.cursor.position < position →
      terms.licence slot.item position depth) :
    Ensures (Excused s.grammar input around)
      (Matcher.sequence s attempt (outer.enter id) id slots) p
      (Came s.grammar calm ((Kind.sequence slots).Leaves s input (terms.below id outer) id)
        ((Kind.sequence slots).Idles s input terms.idle) p) := by
  unfold Matcher.sequence
  refine ensures_mark ?_
  refine ensures_bind (fillSlots_honours stage honest within stands (List.drop_zero)
    sound.marked level ⟨leads, later⟩) ?_
  rintro ⟨tokens, complete⟩ q ⟨n, events, moved, tokens_eq, idle, filled⟩
  obtain rfl : tokens = n := by simpa using tokens_eq
  by_cases nothing : tokens = 0
  · rw [if_pos nothing]
    exact ensures_rollback moved (ensures_pure (came_of_handBack moved (idle nothing)))
  · rw [if_neg nothing]
    have positive : 0 < tokens := Nat.pos_of_ne_zero nothing
    refine ensures_complete sound moved (ensures_pure ?_)
    exact came_of_tally _ positive (moved.handBack (Nat.le_refl _) _) (.sequence (filled positive))

end Dialect
