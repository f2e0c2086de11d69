import Dialect.Matching.Iteration
import Dialect.Proofs.Matching.Expectation

/-!
# Iterations keep the contract

What follows a complete item is put together item by item (`Repeating`).
-/

set_option autoImplicit false

namespace Dialect

variable {s : Setting} {input : Input} {around outer : Path} {terms : Terms} {depth : Nat}
  {attempt : Attempt} {calm : Prop} {id item : ElementId} {separator : Option ElementId}
  {p q r : Progress}

/-- What following items come to when `tokens` were taken before them. -/
def Repeating (s : Setting) (input : Input) (terms : Terms) (calm : Prop) (id : ElementId)
    (outer : Path) (item : ElementId) (separator : Option ElementId) (tokens : Nat)
    (p : Progress) (tally : Tally) (q : Progress) : Prop :=
  ∃ n events, Proceeds s.grammar calm p n events q ∧ tally.tokens = tokens + n ∧
    Repeated s input (terms.below id outer) item separator tally.complete
      p.cursor.position (p.cursor.position + n) events

namespace Repeating

variable {tokens k n : Nat} {before events : List Event} {tally : Tally}

/-- Nothing follows. -/
theorem done (moved : Proceeds s.grammar calm p 0 [] q) :
    Repeating s input terms calm id outer item separator tokens p ⟨tokens, true⟩ q :=
  ⟨0, [], moved, rfl, .done _⟩

/-- An item that is matched in part is the last. -/
theorem part (moved : Proceeds s.grammar calm p k before q)
    (separated : Separated (terms.below id outer) separator p.cursor.position
      (p.cursor.position + k) before)
    (movedOn : Proceeds s.grammar calm q n events r)
    (matched : terms.below id outer 0 item false q.cursor.position (q.cursor.position + n) events) :
    Repeating s input terms calm id outer item separator tokens p ⟨tokens + k + n, false⟩ r := by
  rw [moved.position] at matched
  refine ⟨k + n, before ++ events, moved.trans movedOn, Nat.add_assoc _ _ _, ?_⟩
  rw [← Nat.add_assoc]
  exact .part separated matched

/-- An item is followed by others. -/
theorem more (moved : Proceeds s.grammar calm p k before q)
    (separated : Separated (terms.below id outer) separator p.cursor.position
      (p.cursor.position + k) before)
    (movedOn : Proceeds s.grammar calm q n events r)
    (matched : terms.below id outer 0 item true q.cursor.position (q.cursor.position + n) events)
    {t : Progress}
    (others : Repeating s input terms calm id outer item separator (tokens + k + n) r tally t) :
    Repeating s input terms calm id outer item separator tokens p tally t := by
  obtain ⟨m, more, movedFurther, tokens_eq, repeated⟩ := others
  have both := moved.trans movedOn
  rw [both.position] at repeated
  rw [moved.position] at matched
  refine ⟨k + n + m, before ++ events ++ more, both.trans movedFurther, by omega, ?_⟩
  refine .more separated matched ?_
  rw [Nat.add_assoc p.cursor.position k n, ← Nat.add_assoc p.cursor.position (k + n) m]
  exact repeated

/-- A separator without an item behind it is taken, and the item is missed. -/
theorem miss (stage : Stage s input) (bound : item < s.grammar.elements.size)
    (sound : p.Sound s.grammar input) {between : ElementId}
    (moved : Proceeds s.grammar calm p 1 before q)
    (separated : terms.below id outer 1 between true p.cursor.position
      (p.cursor.position + 1) before)
    (nothing : Proceeds s.grammar calm q 0 [] r) :
    Ensures (Excused s.grammar input around) (do
      Matcher.expected s .E0302 item
      return ⟨tokens + 1, false⟩) r
      (Repeating s input terms calm id outer item (some between) tokens p) := by
  have both := moved.trans nothing
  have there : r.cursor.position = p.cursor.position + 1 := both.position
  refine ensures_bind (ensures_expected calm stage (both.sound sound) bound .E0302) ?_
  rintro - t ⟨found, missing, reported⟩
  rw [there] at missing
  have all := both.trans reported
  rw [List.append_nil] at all
  exact ensures_pure ⟨1, _, all, rfl, .miss rfl separated missing⟩

end Repeating

/-- Going on after a complete item comes to what is promised. -/
theorem repeatItem_honours (stage : Stage s input)
    (honest : attempt.Honours s input around terms depth calm)
    (single : LeavesTakeOne s.grammar terms.record) (within : outer.Within s.grammar around)
    (stands : s.grammar.kind? id = some (.iteration item separator)) {rounds tokens : Nat}
    (sound : p.Sound s.grammar input) (level : p.depth = depth)
    (enough : input.size - p.cursor.position < rounds)
    (free : calm → ∀ position, p.cursor.position ≤ position →
      terms.licence item position depth ∧
        ∀ between ∈ separator, terms.licence between position depth) :
    Ensures (Excused s.grammar input around)
      (Matcher.repeatItem s attempt (outer.enter id) item separator rounds tokens) p
      (Repeating s input terms calm id outer item separator tokens p) := by
  have placed := stage.wellFormed.placed id _ stands
  have bound : item < s.grammar.elements.size := Grammar.lt_of_isSome placed.1.2
  have place : ∀ slot, Path.Within s.grammar (⟨id, slot⟩ :: outer) around := by
    intro slot
    apply within.push stands
    intro slots same
    cases same
  induction rounds generalizing tokens p with
  | zero => exact absurd enough (Nat.not_lt_zero _)
  | succ rounds ih =>
      -- Another round from a state in which further tokens have been taken.
      have again : ∀ {taken n : Nat} {events : List Event} {q : Progress}, 0 < n →
          Proceeds s.grammar calm p n events q → Ensures (Excused s.grammar input around)
            (Matcher.repeatItem s attempt (outer.enter id) item separator rounds taken) q
            (Repeating s input terms calm id outer item separator taken q) := by
        intro taken n events q positive moved
        have here : q.cursor.position = p.cursor.position + n := moved.position
        have inside := (moved.sound sound).inside
        exact ih (moved.sound sound) (moved.keeps.depth.trans level) (by omega)
          fun quiet position beyond => free quiet position (by omega)
      unfold Matcher.repeatItem
      cases separator with
      | none =>
          have freeItem := fun quiet => (free quiet _ (Nat.le_refl _)).1
          refine ensures_bind (honest item bound _ p (place 0) sound level freeItem) ?_
          rintro outcome q ⟨events, moved, matched⟩
          have start := Proceeds.refl calm sound
          cases outcome with
          | noMatch =>
              obtain ⟨rfl, -⟩ := matched
              exact ensures_pure (.done moved)
          | partialMatch n => exact ensures_pure (.part start (.none _) moved matched.2)
          | fullMatch n =>
              exact (again matched.1 moved).imp fun _ _ others =>
                others.more start (.none _) moved matched.2
      | some between =>
          obtain ⟨-, type, betweenStands⟩ := placed.2 between rfl
          have freeBetween := fun quiet => (free quiet _ (Nat.le_refl _)).2 between rfl
          refine ensures_bind (ensures_leafAttempt (honest.leaf betweenStands) single betweenStands
            rfl (place 1) sound level freeBetween) ?_
          rintro outcome q (⟨rfl, moved, -⟩ | ⟨rfl, before, moved, separated⟩)
          · exact ensures_pure (.done moved)
          · have here : q.cursor.position = p.cursor.position + 1 := moved.position
            have freeItem := fun quiet => (free quiet q.cursor.position (by omega)).1
            refine ensures_bind (honest item bound _ q (place 0) (moved.sound sound)
              (moved.keeps.depth.trans level) freeItem) ?_
            rintro outcome r ⟨events, movedOn, matched⟩
            cases outcome with
            | noMatch =>
                obtain ⟨rfl, -⟩ := matched
                exact Repeating.miss stage bound sound moved separated movedOn
            | partialMatch n =>
                exact ensures_pure (.part moved (.some separated) movedOn matched.2)
            | fullMatch n =>
                exact (again (Nat.add_pos_left Nat.one_pos n) (moved.trans movedOn)).imp
                  fun _ _ others => others.more moved (.some separated) movedOn matched.2

/-- What comes of an iteration. -/
theorem iteration_honours (stage : Stage s input)
    (honest : attempt.Honours s input around terms depth calm)
    (single : LeavesTakeOne s.grammar terms.record) (within : outer.Within s.grammar around)
    (stands : s.grammar.kind? id = some (.iteration item separator))
    (sound : p.Sound s.grammar input) (level : p.depth = depth)
    (leads : calm → terms.licence item p.cursor.position depth)
    (later : calm → ∀ position, p.cursor.position < position →
      terms.licence item position depth ∧
        ∀ between ∈ separator, terms.licence between position depth) :
    Ensures (Excused s.grammar input around)
      (Matcher.iteration s attempt (outer.enter id) id item separator) p
      (Came s.grammar calm
        ((Kind.iteration item separator).Leaves s input (terms.below id outer) id)
        ((Kind.iteration item separator).Idles s input terms.idle) p) := by
  have bound : item < s.grammar.elements.size :=
    Grammar.lt_of_isSome (stage.wellFormed.placed id _ stands).1.2
  have place : Path.Within s.grammar (⟨id, 0⟩ :: outer) around := by
    apply within.push stands
    intro slots same
    cases same
  unfold Matcher.iteration
  refine ensures_mark ?_
  refine ensures_bind (honest item bound _ p.marked place sound.marked level leads) ?_
  rintro outcome q ⟨events, moved, matched⟩
  -- Only a full first item is repeated.
  cases outcome with
  | noMatch =>
      refine ensures_rollback moved (ensures_pure (came_of_handBack moved ?_))
      intro quiet eager other tried
      obtain rfl := List.mem_singleton.1 tried
      exact matched.2 quiet eager
  | partialMatch n =>
      refine ensures_complete sound moved (ensures_pure ?_)
      exact came_of_tally ⟨n, false⟩ matched.1 (moved.handBack (Nat.le_refl _) _)
        (.iterationPart matched.2)
  | fullMatch n =>
      have here : q.cursor.position = p.cursor.position + n := moved.position
      have soundNext := moved.sound sound.marked
      have positive := matched.1
      refine ensures_bind_of_ok cursor_eq ?_
      rw [soundNext.remaining_eq]
      refine ensures_bind (repeatItem_honours stage honest single within stands soundNext
        (moved.keeps.depth.trans level) (Nat.lt_succ_self _) fun quiet position beyond =>
          later quiet position (by omega)) ?_
      rintro tally r ⟨k, more, movedOn, tokens_eq, repeated⟩
      rw [here] at repeated
      obtain ⟨tokens, complete⟩ := tally
      obtain rfl : tokens = n + k := tokens_eq
      have both := moved.trans movedOn
      refine ensures_complete sound both (ensures_pure ?_)
      refine came_of_tally _ (by dsimp only; omega) (both.handBack (Nat.le_refl _) _) ?_
      rw [← Nat.add_assoc]
      exact .iteration matched.2 repeated

end Dialect
