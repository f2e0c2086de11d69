import Dialect.Matching.Wrapper
import Dialect.Proofs.Matching.Iteration

/-!
# Wrappers keep the contract
-/

set_option autoImplicit false

namespace Dialect

variable {s : Setting} {input : Input} {around outer : Path} {terms : Terms} {depth : Nat}
  {attempt : Attempt} {calm : Prop} {id opening closing : ElementId} {slot : Slot ElementId}
  {repeated : Bool} {p q r : Progress}

/-- The elements of a wrapper, each at its slot. -/
theorem Path.Within.wrapper (within : outer.Within s.grammar around)
    (stands : s.grammar.kind? id = some (.wrapper opening slot closing repeated)) (place : Nat) :
    Path.Within s.grammar (⟨id, place⟩ :: outer) around := by
  apply within.push stands
  intro slots same
  cases same

section Parts

variable (stage : Stage s input) (honest : attempt.Honours s input around terms depth calm)
  (single : LeavesTakeOne s.grammar terms.record) (within : outer.Within s.grammar around)
  (stands : s.grammar.kind? id = some (.wrapper opening slot closing repeated))

/-! ### Content -/

include stage honest within stands in
/-- What comes of the content of a wrapper. -/
theorem content_honours (sound : p.Sound s.grammar input) (level : p.depth = depth)
    (free : calm → slot.isActive s.options.version = true →
      terms.licence slot.item p.cursor.position depth) :
    Ensures (Excused s.grammar input around)
      (Matcher.content s attempt (outer.enter id) slot) p
      (Came s.grammar calm (fun complete i j events =>
        slot.isActive s.options.version = true ∧
          terms.record slot.item (⟨id, 1⟩ :: outer) complete i j events)
        (fun i => slot.isActive s.options.version = true → terms.idle slot.item i) p) := by
  have bound : slot.item < s.grammar.elements.size :=
    Grammar.lt_of_isSome (stage.wellFormed.placed id _ stands).2.1.2
  unfold Matcher.content
  by_cases active : slot.isActive s.options.version = true
  · rw [if_pos active]
    refine (honest slot.item bound _ p (within.wrapper stands 1) sound level
      fun quiet => free quiet active).imp fun outcome q => ?_
    rintro ⟨events, moved, matched⟩
    refine ⟨events, moved, ?_⟩
    cases outcome with
    | noMatch => exact ⟨matched.1, fun quiet eager _ => matched.2 quiet eager⟩
    | partialMatch n => exact ⟨matched.1, active, matched.2⟩
    | fullMatch n => exact ⟨matched.1, active, matched.2⟩
  · rw [if_neg active]
    exact ensures_pure ⟨[], .refl calm sound, rfl, fun _ _ now => absurd now active⟩

include stage stands in
/-- What is tallied of the content of a wrapper. -/
theorem addContent_honours (sound : p.Sound s.grammar input) {opened : Nat} {outcome : Outcome}
    {idle : Nat → Prop}
    (came : Came s.grammar calm (fun complete i j events =>
      slot.isActive s.options.version = true ∧
        terms.record slot.item (⟨id, 1⟩ :: outer) complete i j events) idle p outcome q) :
    Ensures (Excused s.grammar input around) (Matcher.addContent s slot opened outcome) q
      fun tally r => ∃ n events, Proceeds s.grammar calm p n events r ∧
        tally.tokens = opened + n ∧
        Contained s input (terms.below id outer) slot
          tally.complete p.cursor.position (p.cursor.position + n) events := by
  have bound : slot.item < s.grammar.elements.size :=
    Grammar.lt_of_isSome (stage.wellFormed.placed id _ stands).2.1.2
  obtain ⟨events, moved, matched⟩ := came
  cases outcome with
  | fullMatch n =>
      obtain ⟨-, active, recorded⟩ := matched
      exact ensures_pure ⟨n, events, moved, rfl, .fill active recorded⟩
  | partialMatch n =>
      obtain ⟨-, active, recorded⟩ := matched
      exact ensures_pure ⟨n, events, moved, rfl, .fill active recorded⟩
  | noMatch =>
      obtain ⟨rfl, -⟩ := matched
      unfold Matcher.addContent
      by_cases optional : slot.optional = true
      · simp only [optional, if_true]
        exact ensures_pure ⟨0, [], moved, rfl, .leave optional⟩
      · simp only [optional, Bool.false_eq_true, if_false]
        have here : q.cursor.position = p.cursor.position := moved.position
        refine ensures_bind (ensures_expectedHere calm stage (moved.sound sound) bound) ?_
        rintro - r ⟨found, missing, reported⟩
        rw [here] at missing
        exact ensures_pure ⟨0, _, moved.trans reported, rfl, .miss (by simpa using optional) missing⟩

/-! ### Delimiters -/

include stage honest single within stands

/-- Opening delimiters are taken one after the other. -/
theorem openAll_honours {rounds first : Nat} {opened : List TextRange} {before : List Event}
    (sound : p.Sound s.grammar input) (level : p.depth = depth)
    (enough : input.size - p.cursor.position < rounds)
    (free : calm → ∀ position, p.cursor.position ≤ position → terms.licence opening position depth)
    (already : Opened input (terms.below id outer) opening opened
      first p.cursor.position before) :
    Ensures (Excused s.grammar input around)
      (Matcher.openAll attempt (outer.enter id) opening rounds opened) p fun ranges q =>
        ∃ n events, Proceeds s.grammar calm p n events q ∧ ranges.length = opened.length + n ∧
          (n = 0 → calm → p.Eager → terms.idle opening p.cursor.position) ∧
          Opened input (terms.below id outer) opening ranges
            first (p.cursor.position + n) (before ++ events) := by
  -- The induction is on the rounds, of which there are always more than tokens left.
  obtain ⟨⟨-, type, opens⟩, -, -⟩ := stage.wellFormed.placed id _ stands
  induction rounds generalizing p opened before with
  | zero => exact absurd enough (Nat.not_lt_zero _)
  | succ rounds ih =>
      unfold Matcher.openAll
      refine ensures_bind_of_ok cursor_eq ?_
      rw [sound.range_eq]
      refine ensures_bind_check (raises_currentRange input _) fun range range_eq => ?_
      refine ensures_bind (ensures_leafAttempt (honest.leaf opens) single opens rfl
        (within.wrapper stands 0) sound level fun quiet => free quiet _ (Nat.le_refl _)) ?_
      rintro outcome q (⟨rfl, moved, nothing⟩ | ⟨rfl, events, moved, recorded⟩)
      · refine ensures_pure ⟨0, [], moved, rfl, fun _ => nothing, ?_⟩
        rwa [List.append_nil]
      · have here : q.cursor.position = p.cursor.position + 1 := moved.position
        have inside := (moved.sound sound).inside
        -- What has been opened so far is carried along, one delimiter longer.
        have more := already.more range_eq recorded
        rw [← here] at more
        refine (ih (moved.sound sound) (moved.keeps.depth.trans level) (by omega)
          (fun quiet position beyond => free quiet position (by omega)) more).imp ?_
        rintro ranges r ⟨n, others, movedOn, length, -, all⟩
        rw [here, List.append_assoc, Nat.add_assoc] at all
        refine ⟨1 + n, events ++ others, moved.trans movedOn, ?_, fun none => ?_, all⟩
        · rw [length, List.length_cons]
          omega
        · omega

/-- Closing delimiters are taken one after the other. -/
theorem closeAll_honours {opened : List TextRange} (sound : p.Sound s.grammar input)
    (level : p.depth = depth)
    (free : calm → ∀ position, p.cursor.position ≤ position → terms.licence closing position depth) :
    Ensures (Excused s.grammar input around)
      (Matcher.closeAll attempt (outer.enter id) closing opened) p fun result q =>
        ∃ events, Proceeds s.grammar calm p result.1 events q ∧
          Shut (terms.below id outer) closing opened result.2
            p.cursor.position (p.cursor.position + result.1) events := by
  obtain ⟨-, -, -, type, closes⟩ := stage.wellFormed.placed id _ stands
  induction opened generalizing p with
  | nil => exact ensures_pure ⟨[], .refl calm sound, .done _ _⟩
  | cons range outerRanges ih =>
      unfold Matcher.closeAll
      refine ensures_bind (ensures_leafAttempt (honest.leaf closes) single closes rfl
        (within.wrapper stands 2) sound level fun quiet => free quiet _ (Nat.le_refl _)) ?_
      rintro outcome q (⟨rfl, moved, -⟩ | ⟨rfl, events, moved, recorded⟩)
      · exact ensures_pure ⟨[], moved, .done _ _⟩
      · have here : q.cursor.position = p.cursor.position + 1 := moved.position
        refine ensures_bind (ih (moved.sound sound) (moved.keeps.depth.trans level)
          fun quiet position beyond => free quiet position (by omega)) ?_
        rintro ⟨closed, left⟩ r ⟨more, movedOn, shut⟩
        have both := moved.trans movedOn
        dsimp only [Outcome.tokens] at both
        rw [here, Nat.add_assoc] at shut
        refine ensures_pure ⟨events ++ more, ?_, ?_⟩
        · rwa [Nat.add_comm]
        · rw [Nat.add_comm closed 1]
          exact .more recorded shut

omit honest single within in
/-- A closing delimiter that is missing is reported with the place of the opening one. -/
theorem unclosed_honours {n : Nat} {events : List Event} (sound : p.Sound s.grammar input)
    (moved : Proceeds s.grammar calm p n events q) (range : TextRange) :
    Ensures (Excused s.grammar input around) (Matcher.unclosed s closing range) q fun _ r =>
      ∃ found, Missing s input .E0203 closing (p.cursor.position + n) found ∧
        Proceeds s.grammar calm p n (events ++
          [.diagnostic { found with related := found.related ++ [⟨"opened here", range⟩] }]) r := by
  obtain ⟨-, -, -, type, closes⟩ := stage.wellFormed.placed id _ stands
  have bound := Grammar.lt_of_kind?_eq_some closes
  unfold Matcher.unclosed
  refine ensures_bind (ensures_expected calm stage (moved.sound sound) bound .E0203) ?_
  rintro - r ⟨found, missing, reported⟩
  rw [moved.position] at missing
  have both := moved.trans reported
  have annotated := Cursor.annotate_eq p.cursor (n + 0) events ⟨"opened here", range⟩ found
  rw [← both.cursor] at annotated
  exact ensures_of_ok (move_eq annotated) ⟨found, missing, both.moveTo both.inside _⟩

/-- What closing delimiters add to the tally of a wrapper. -/
theorem close_honours {opened : List TextRange} {tally : Tally} (sound : p.Sound s.grammar input)
    (level : p.depth = depth)
    (free : calm → ∀ position, p.cursor.position ≤ position → terms.licence closing position depth) :
    Ensures (Excused s.grammar input around)
      (Matcher.close s attempt (outer.enter id) closing opened tally) p fun closed q =>
        ∃ n events, Proceeds s.grammar calm p n events q ∧
          closed.tokens = tally.tokens + n ∧
          Closed s input (terms.below id outer) closing opened
            tally.complete closed.complete p.cursor.position (p.cursor.position + n) events := by
  unfold Matcher.close
  refine ensures_bind (closeAll_honours stage honest single within stands sound level free) ?_
  rintro ⟨closed, left⟩ q ⟨events, moved, shut⟩
  cases left with
  | nil => exact ensures_pure ⟨closed, events, moved, rfl, .all shut⟩
  | cons range others =>
      cases complete : tally.complete with
      | false => exact ensures_pure ⟨closed, events, moved, rfl, .silent shut⟩
      | true =>
          simp only [if_true]
          refine ensures_bind (unclosed_honours stage stands sound moved range) ?_
          rintro - r ⟨found, missing, reported⟩
          exact ensures_pure ⟨closed, _, reported, rfl, .report shut missing⟩

/-! ### Wrappers -/

/-- A wrapper whose content has been tallied is closed and recorded. -/
theorem finish_honours {opened : List TextRange} {tally : Tally} {events : List Event}
    {record : Record} {idle : Nat → Prop} (sound : p.Sound s.grammar input)
    (level : p.depth = depth) (moved : Proceeds s.grammar calm p.marked tally.tokens events q)
    (positive : 0 < tally.tokens)
    (free : calm → ∀ position, p.cursor.position < position → terms.licence closing position depth)
    (leaves : ∀ complete j last, Closed s input (terms.below id outer) closing opened
      tally.complete complete (p.cursor.position + tally.tokens) j last →
        record complete p.cursor.position j (input.node id p.cursor.position (events ++ last))) :
    Ensures (Excused s.grammar input around) (do
      let tally ← Matcher.close s attempt (outer.enter id) closing opened tally
      Cursor.complete p.cursor.place id
      return tally.outcome) q (Came s.grammar calm record idle p) := by
  have here : q.cursor.position = p.cursor.position + tally.tokens := moved.position
  refine ensures_bind (close_honours stage honest single within stands (moved.sound sound.marked)
    (moved.keeps.depth.trans level) fun quiet position beyond => free quiet position (by omega)) ?_
  rintro ⟨tokens, complete⟩ r ⟨n, last, movedOn, closed_eq, closed⟩
  obtain rfl : tokens = tally.tokens + n := closed_eq
  rw [here] at closed
  have all := moved.trans movedOn
  refine ensures_complete sound all (ensures_pure ?_)
  refine came_of_tally _ (Nat.add_pos_left positive n) (all.handBack (Nat.le_refl _) _) ?_
  rw [← Nat.add_assoc]
  exact leaves _ _ _ closed

end Parts

/-- What comes of a plain wrapper. -/
theorem wrapper_honours (stage : Stage s input)
    (honest : attempt.Honours s input around terms depth calm)
    (single : LeavesTakeOne s.grammar terms.record) (within : outer.Within s.grammar around)
    (stands : s.grammar.kind? id = some (.wrapper opening slot closing false))
    (sound : p.Sound s.grammar input) (level : p.depth = depth)
    (leads : calm → terms.licence opening p.cursor.position depth)
    (later : calm → ∀ position, p.cursor.position < position →
      terms.licence slot.item position depth ∧ terms.licence closing position depth) :
    Ensures (Excused s.grammar input around)
      (Matcher.wrapper s attempt (outer.enter id) id opening slot closing) p
      (Came s.grammar calm
        ((Kind.wrapper opening slot closing false).Leaves s input (terms.below id outer) id)
        ((Kind.wrapper opening slot closing false).Idles s input terms.idle) p) := by
  obtain ⟨⟨-, type, opens⟩, -, -⟩ := stage.wellFormed.placed id _ stands
  unfold Matcher.wrapper
  refine ensures_mark (ensures_bind_of_ok cursor_eq ?_)
  rw [sound.marked.range_eq]
  refine ensures_bind_check (raises_currentRange input _) fun range range_eq => ?_
  refine ensures_bind (ensures_leafAttempt (honest.leaf opens) single opens rfl
    (within.wrapper stands 0) sound.marked level leads) ?_
  rintro outcome q (⟨rfl, moved, nothing⟩ | ⟨rfl, first, moved, opened⟩)
  · refine ensures_rollback moved (ensures_pure (came_of_handBack moved ?_))
    intro quiet eager other tried
    obtain rfl := List.mem_singleton.1 tried
    exact nothing quiet eager
  · have here : q.cursor.position = p.cursor.position + 1 := moved.position
    have soundNext := moved.sound sound.marked
    have levelNext : q.depth = depth := moved.keeps.depth.trans level
    have free := fun quiet position further => (later quiet position further).2
    simp only [Outcome.isMatch, Bool.not_true, Bool.false_eq_true, if_false]
    -- Content that the version does not have is passed over, as complete and without tokens.
    cases active : slot.isActive s.options.version with
    | true =>
        simp only [if_true]
        refine ensures_bind (content_honours stage honest within stands soundNext levelNext
          fun quiet _ => (later quiet _ (by omega)).1) ?_
        intro outcome r came
        refine ensures_bind (addContent_honours stage stands soundNext came) ?_
        rintro ⟨tokens, held⟩ t ⟨k, middle, movedOn, tokens_eq, contained⟩
        obtain rfl : tokens = 1 + k := tokens_eq
        rw [here] at contained
        refine finish_honours stage honest single within stands sound level
          (moved.trans movedOn) (Nat.add_pos_left Nat.one_pos k) free fun complete j last closed => ?_
        rw [← Nat.add_assoc] at closed
        refine .wrapper range_eq opened (fun _ => contained) (fun inactive => ?_) closed
        rw [active] at inactive
        cases inactive
    | false =>
        simp only [Bool.false_eq_true, if_false]
        have tallied : Proceeds s.grammar calm p.marked (Tally.mk 1 true).tokens first q := moved
        refine ensures_bind_of_ok rfl (finish_honours stage honest single within stands sound level
          tallied Nat.one_pos free fun complete j last closed => ?_)
        have recorded : (Kind.wrapper opening slot closing false).Leaves s input
            (terms.below id outer) id complete p.cursor.position j
            (input.node id p.cursor.position (first ++ [] ++ last)) :=
          .wrapper range_eq opened (fun now => absurd now (by simp [active]))
            (fun _ => ⟨rfl, rfl, rfl⟩) closed
        rwa [List.append_nil] at recorded

/-- What comes of a repeated wrapper without opening delimiters. -/
theorem bare_honours
    (moved : Proceeds s.grammar calm p.marked 0 [] q)
    (unopened : calm → p.Eager → terms.idle opening p.cursor.position) {outcome : Outcome}
    (came : Came s.grammar calm (fun complete i j events =>
        slot.isActive s.options.version = true ∧
          terms.record slot.item (⟨id, 1⟩ :: outer) complete i j events)
        (fun i => slot.isActive s.options.version = true → terms.idle slot.item i) q outcome r) :
    Ensures (Excused s.grammar input around) (do
      if outcome.isMatch then Cursor.release p.cursor.place
      else Cursor.rollback p.cursor.place
      return outcome) r
      (Came s.grammar calm
        ((Kind.wrapper opening slot closing true).Leaves s input (terms.below id outer) id)
        ((Kind.wrapper opening slot closing true).Idles s input terms.idle) p) := by
  have here : q.cursor.position = p.cursor.position := moved.position
  obtain ⟨events, movedOn, matched⟩ := came
  have both := moved.trans movedOn
  rw [Nat.zero_add, List.nil_append] at both
  rw [here] at matched
  cases outcome with
  | noMatch =>
      refine ensures_rollback both (ensures_pure (came_of_handBack both ?_))
      intro quiet eager other tried
      have eagerNext : q.Eager := moved.eager quiet eager
      -- Both entries were tried here: the delimiter in vain, and the content if it is active.
      simp only [Kind.Tries, Kind.entriesAt, Bool.true_and] at tried
      split at tried
      · rename_i active
        rcases List.mem_pair.1 tried with rfl | rfl
        · exact unopened quiet eager
        · exact matched.2 quiet eagerNext active
      · obtain rfl := List.mem_singleton.1 tried
        exact unopened quiet eager
  | partialMatch k =>
      obtain ⟨positive, active, recorded⟩ := matched
      refine ensures_release both (ensures_pure ?_)
      exact came_of_tally ⟨k, false⟩ positive (both.handBack (Nat.le_refl _) _)
        (.bare active recorded)
  | fullMatch k =>
      obtain ⟨positive, active, recorded⟩ := matched
      refine ensures_release both (ensures_pure ?_)
      exact came_of_tally ⟨k, true⟩ positive (both.handBack (Nat.le_refl _) _)
        (.bare active recorded)

/-- What comes of a repeated wrapper. -/
theorem balanced_honours (stage : Stage s input)
    (honest : attempt.Honours s input around terms depth calm)
    (single : LeavesTakeOne s.grammar terms.record) (within : outer.Within s.grammar around)
    (stands : s.grammar.kind? id = some (.wrapper opening slot closing true))
    (sound : p.Sound s.grammar input) (level : p.depth = depth)
    (leads : calm → terms.licence opening p.cursor.position depth ∧
      (slot.isActive s.options.version = true → terms.licence slot.item p.cursor.position depth))
    (later : calm → ∀ position, p.cursor.position < position →
      terms.licence opening position depth ∧ terms.licence slot.item position depth ∧
        terms.licence closing position depth) :
    Ensures (Excused s.grammar input around)
      (Matcher.balanced s attempt (outer.enter id) id opening slot closing) p
      (Came s.grammar calm
        ((Kind.wrapper opening slot closing true).Leaves s input (terms.below id outer) id)
        ((Kind.wrapper opening slot closing true).Idles s input terms.idle) p) := by
  have freeOpening : calm → ∀ position, p.cursor.position ≤ position →
      terms.licence opening position depth := by
    intro quiet position beyond
    rcases Nat.lt_or_eq_of_le beyond with further | rfl
    · exact (later quiet position further).1
    · exact (leads quiet).1
  unfold Matcher.balanced
  refine ensures_mark (ensures_bind_of_ok cursor_eq ?_)
  rw [sound.marked.remaining_eq]
  refine ensures_bind (openAll_honours stage honest single within stands sound.marked level
    (Nat.lt_succ_self _) freeOpening (.done _)) ?_
  rintro ranges q ⟨n, first, moved, length, unopened, opened⟩
  have here : q.cursor.position = p.cursor.position + n := moved.position
  have soundNext := moved.sound sound.marked
  -- Without a delimiter the content is an entry, and behind one it stands at a later position.
  have freeContent : calm → slot.isActive s.options.version = true →
      terms.licence slot.item q.cursor.position depth := by
    intro quiet active
    rcases Nat.eq_zero_or_pos n with rfl | positive
    · rw [here]
      exact (leads quiet).2 active
    · exact (later quiet _ (by omega)).2.1
  refine ensures_bind (content_honours stage honest within stands soundNext
    (moved.keeps.depth.trans level) freeContent) ?_
  intro outcome r came
  cases ranges with
  | nil =>
      obtain rfl : n = 0 := by simpa using length.symm
      obtain rfl : first = [] := by cases opened; rfl
      exact bare_honours moved (unopened rfl) came
  | cons range others =>
      obtain rfl : others.length + 1 = n := by simpa using length
      simp only [List.isEmpty_cons, Bool.false_eq_true, if_false]
      refine ensures_bind (addContent_honours stage stands soundNext came) ?_
      rintro ⟨tokens, held⟩ t ⟨k, middle, movedOn, tokens_eq, contained⟩
      obtain rfl : tokens = others.length + 1 + k := tokens_eq
      rw [here] at contained
      refine finish_honours stage honest single within stands sound level (moved.trans movedOn)
        (Nat.add_pos_left (Nat.succ_pos _) k)
        (fun quiet position further => (later quiet position further).2.2)
        fun complete j last closed => ?_
      rw [← Nat.add_assoc] at closed
      exact .balanced opened (List.cons_ne_nil _ _) contained closed

end Dialect
