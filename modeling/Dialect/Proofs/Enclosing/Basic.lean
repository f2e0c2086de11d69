import Dialect.Matching.Expectation
import Dialect.Proofs.Enclosing.Extension
import Dialect.Proofs.Matching.Contract

/-!
# Parses inside others

A parse may be repeated inside something else (`Enclosure`): with more rules, with frames around
its path, some levels deeper, and with something in front of its record.

`Enclosure.Carries` says of two steps that what the first comes to the second comes to as well.
Nothing is claimed where the first ends with a fault.  There is one rule for each way to put steps
together and for each move of the cursor.
-/

set_option autoImplicit false

namespace Dialect

/-- A parse and what is around its repetition. -/
structure Enclosure where
  source : Setting
  target : Setting
  input : Input
  /-- The frames around. -/
  around : Path
  /-- How many more elements are entered and not yet left. -/
  depth : Nat
  /-- What was recorded before. -/
  before : Array Event
  /-- How many more marks are out. -/
  marks : Nat

/-- The failure with the limit moved. -/
def Failure.deepen (levels : Nat) : Failure → Failure
  | .depthExceeded limit => .depthExceeded (limit + levels)
  | failure => failure

namespace Enclosure

variable (m : Enclosure)

/-- The cursor with the record put behind what was recorded before. -/
def cursor (c : Cursor) : Cursor :=
  { c with events := m.before ++ c.events, openMarks := c.openMarks + m.marks }

/-- The same place in the longer record. -/
def mark (mark : Mark) : Mark := { mark with event := m.before.size + mark.event }

/-- The same attempt, to be replayed in the longer record. -/
def snapshot (snapshot : Snapshot) : Snapshot :=
  { snapshot with event := m.before.size + snapshot.event }

/-- The state of the repetition, up to what is remembered, which is right in both parses. -/
structure States (p q : Progress) : Prop where
  reads : p.cursor.input = m.input
  same : q = { p with
    cursor := m.cursor p.cursor
    depth := p.depth + m.depth
    failure := p.failure.map (Failure.deepen m.depth)
    memo := q.memo }
  faithful : p.memo.Faithful m.source.grammar
  faithful' : q.memo.Faithful m.target.grammar

/-- What the first result is the second is as well; nothing is claimed of a fault. -/
def Follows {α β : Type} (related : α → β → Prop) (result : EStateM.Result Fault Progress α)
    (result' : EStateM.Result Fault Progress β) : Prop :=
  ∀ value p, result = .ok value p →
    ∃ value' q, result' = .ok value' q ∧ related value value' ∧ m.States p q

/-- What the first step comes to the second comes to as well. -/
def Carries {α β : Type} (related : α → β → Prop) (step : Matcher α) (step' : Matcher β) : Prop :=
  ∀ p q, m.States p q → m.Follows related (step p) (step' q)

/-- What the first move came to the second came to as well. -/
def Moved {α β : Type} (related : α → β → Prop) (result : EStateM.Result Fault Cursor α)
    (result' : EStateM.Result Fault Cursor β) : Prop :=
  ∀ value c, result = .ok value c →
    c.input = m.input ∧ ∃ value', result' = .ok value' (m.cursor c) ∧ related value value'

/-- Where the first move leads the second leads as well. -/
def Moves {α β : Type} (related : α → β → Prop) (move : Cursor.Step α) (move' : Cursor.Step β) :
    Prop :=
  ∀ c, c.input = m.input → m.Moved related (move c) (move' (m.cursor c))

section Rules

variable {m} {α β γ δ : Type} {related : α → β → Prop} {others : γ → δ → Prop}
  {step : Matcher α} {step' : Matcher β}

/-! ### Putting steps together -/

theorem follows_ok {value : α} {value' : β} {p q : Progress} (holds : related value value')
    (states : m.States p q) : m.Follows related (.ok value p) (.ok value' q) := by
  rintro _ _ ⟨⟩
  exact ⟨value', q, rfl, holds, states⟩

theorem carries_pure {value : α} {value' : β} (holds : related value value') :
    m.Carries related (pure value) (pure value') :=
  fun _ _ states => follows_ok holds states

/-- Of a fault nothing is claimed. -/
theorem carries_throw (fault : Fault) (step' : Matcher β) :
    m.Carries related (throw fault : Matcher α) step' := by
  intro p q _ value after ran
  cases ran

theorem follows_bind {next : α → Matcher γ} {next' : β → Matcher δ} {p q : Progress}
    (first : m.Follows related (step p) (step' q))
    (second : ∀ value value' r t, related value value' → m.States r t →
      m.Follows others (next value r) (next' value' t)) :
    m.Follows others ((step >>= next) p) ((step' >>= next') q) := by
  intro result last ran
  obtain ⟨value, r, here, further⟩ := bind_apply_eq_ok.1 ran
  obtain ⟨value', t, there, holds, states⟩ := first value r here
  obtain ⟨result', last', further', related, states⟩ :=
    second value value' r t holds states result last further
  exact ⟨result', last', bind_apply_eq_ok.2 ⟨value', t, there, further'⟩, related, states⟩

theorem carries_bind {next : α → Matcher γ} {next' : β → Matcher δ}
    (first : m.Carries related step step')
    (second : ∀ value value', related value value' → m.Carries others (next value) (next' value')) :
    m.Carries others (step >>= next) (step' >>= next') :=
  fun p q states => follows_bind (first p q states) fun value value' r t holds states =>
    second value value' holds r t states

/-- Going on after steps that come to the same. -/
theorem carries_bind_eq {step step' : Matcher α} {next : α → Matcher γ} {next' : α → Matcher δ}
    (first : m.Carries Eq step step')
    (second : ∀ value, m.Carries others (next value) (next' value)) :
    m.Carries others (step >>= next) (step' >>= next') := by
  refine carries_bind first fun value value' same => ?_
  subst same
  exact second value

theorem carries_map {step step' : Matcher α} (f : α → γ) (first : m.Carries Eq step step') :
    m.Carries Eq (f <$> step) (f <$> step') := by
  rw [map_eq_pure_bind, map_eq_pure_bind]
  exact carries_bind_eq first fun _ => carries_pure rfl

theorem carries_ite {c : Prop} [Decidable c] {other : Matcher α} {other' : Matcher β}
    (first : m.Carries related step step') (second : m.Carries related other other') :
    m.Carries related (if c then step else other) (if c then step' else other') := by
  split
  · exact first
  · exact second

/-- Going on after a look at the cursor. -/
theorem carries_bind_cursor {next : Cursor → Matcher γ} {next' : Cursor → Matcher δ}
    (carries : ∀ c, c.input = m.input → m.Carries others (next c) (next' (m.cursor c))) :
    m.Carries others (Matcher.cursor >>= next) (Matcher.cursor >>= next') := by
  intro p q states
  have there : q.cursor = m.cursor p.cursor := by rw [states.same]
  rw [bind_of_ok cursor_eq, bind_of_ok cursor_eq, there]
  exact carries p.cursor states.reads p q states

/-- Going on after a check that both pass. -/
theorem follows_bind_check {answer answer' : Except Fault α} {next : α → Matcher γ}
    {next' : α → Matcher δ} {p q : Progress} (upholds : Upholds answer answer')
    (follows : ∀ value, answer = .ok value → m.Follows others (next value p) (next' value q)) :
    m.Follows others (((liftM answer : Matcher α) >>= next) p)
      (((liftM answer' : Matcher α) >>= next') q) := by
  cases answered : answer with
  | error fault => exact nofun
  | ok value =>
      rw [upholds value answered]
      exact follows value answered

theorem carries_bind_check {answer answer' : Except Fault α} {next : α → Matcher γ}
    {next' : α → Matcher δ} (upholds : Upholds answer answer')
    (carries : ∀ value, answer = .ok value → m.Carries others (next value) (next' value)) :
    m.Carries others ((liftM answer : Matcher α) >>= next)
      ((liftM answer' : Matcher α) >>= next') :=
  fun p q states => follows_bind_check upholds fun value answered =>
    carries value answered p q states

/-- Questions whose answers agree. -/
theorem carries_query {query query' : Query α} {answer answer' : Except Fault α}
    (answers : Answers m.source.grammar query answer)
    (answers' : Answers m.target.grammar query' answer') (upholds : Upholds answer answer') :
    m.Carries Eq (liftM query : Matcher α) (liftM query') := by
  rintro p q ⟨reads, same, faithful, faithful'⟩
  obtain ⟨after, kept, ran⟩ := answers p.memo faithful
  obtain ⟨after', kept', ran'⟩ := answers' q.memo faithful'
  cases answered : answer with
  | error fault =>
      rw [answered] at ran
      rw [query_eq_error ran]
      exact nofun
  | ok value =>
      rw [answered] at ran
      rw [upholds value answered] at ran'
      rw [query_eq ran, query_eq ran']
      exact follows_ok rfl ⟨reads, by rw [same], kept, kept'⟩

theorem carries_move {move : Cursor.Step α} {move' : Cursor.Step β}
    (moves : m.Moves related move move') :
    m.Carries related (liftM move : Matcher α) (liftM move' : Matcher β) := by
  rintro p q ⟨reads, same, faithful, faithful'⟩ value after ran
  have there : q.cursor = m.cursor p.cursor := by rw [same]
  cases moved : move p.cursor with
  | error fault d =>
      obtain ⟨_, _, _, _, _, _⟩ := p
      simp only [liftM, monadLift, MonadLift.monadLift] at ran moved
      rw [moved] at ran
      cases ran
  | ok found d =>
      rw [move_eq moved] at ran
      obtain ⟨rfl, rfl⟩ : found = value ∧ { p with cursor := d } = after := by
        cases ran
        exact ⟨rfl, rfl⟩
      obtain ⟨reads, value', moved', holds⟩ := moves p.cursor reads found d moved
      rw [← there] at moved'
      exact ⟨value', _, move_eq moved', holds, reads, by rw [same], faithful, faithful'⟩

end Rules

/-! ### What cursors show -/

section Shows

variable {m} (c : Cursor)

theorem current?_cursor : (m.cursor c).current? = c.current? := rfl

theorem peek?_cursor (n : Nat) : (m.cursor c).peek? n = c.peek? n := rfl

theorem atPlaceholder_cursor : (m.cursor c).atPlaceholder = c.atPlaceholder := rfl

theorem currentRange_cursor : (m.cursor c).currentRange = c.currentRange := rfl

theorem endOffset_cursor : (m.cursor c).endOffset = c.endOffset := rfl

theorem size_cursor : (m.cursor c).events.size = m.before.size + c.events.size :=
  Array.size_append

end Shows

/-! ### Moves -/

section Moves

variable {m} {α β γ δ : Type} {related : α → β → Prop} {others : γ → δ → Prop}

theorem moved_ok {value : α} {value' : β} {c : Cursor} (reads : c.input = m.input)
    (holds : related value value') : m.Moved related (.ok value c) (.ok value' (m.cursor c)) := by
  rintro _ _ ⟨⟩
  exact ⟨reads, value', rfl, holds⟩

theorem moves_bind {move : Cursor.Step α} {move' : Cursor.Step β} {next : α → Cursor.Step γ}
    {next' : β → Cursor.Step δ} (first : m.Moves related move move')
    (second : ∀ value value', related value value' → m.Moves others (next value) (next' value')) :
    m.Moves others (move >>= next) (move' >>= next') := by
  intro c reads result last ran
  obtain ⟨value, d, here, further⟩ := bind_apply_eq_ok.1 ran
  obtain ⟨reads, value', there, holds⟩ := first c reads value d here
  obtain ⟨reads, result', further', holds⟩ := second value value' holds d reads result last further
  exact ⟨reads, result', bind_apply_eq_ok.2 ⟨value', _, there, further'⟩, holds⟩

theorem moves_get {next : Cursor → Cursor.Step α} {next' : Cursor → Cursor.Step β}
    (moves : ∀ c, c.input = m.input →
      m.Moved related (next c c) (next' (m.cursor c) (m.cursor c))) :
    m.Moves related (get >>= next) (get >>= next') := moves

/-- Of a fault nothing is claimed, and beyond it the moves are the same. -/
theorem moved_guard {c : Cursor} {fault fault' : Fault} {lost lost' : Prop} [Decidable lost]
    [Decidable lost'] (same : lost' ↔ lost) {next : Cursor.Step α} {next' : Cursor.Step β}
    (moves : m.Moved related (next c) (next' (m.cursor c))) :
    m.Moved related ((if lost then throw fault else next : Cursor.Step α) c)
      ((if lost' then throw fault' else next' : Cursor.Step β) (m.cursor c)) := by
  by_cases strayed : lost
  · rw [if_pos strayed]
    rintro value d ⟨⟩
  · rw [if_neg strayed, if_neg (mt same.1 strayed)]
    exact moves

/-- Changes of the cursor that come to the same. -/
theorem moves_modify {change change' : Cursor → Cursor}
    (changes : ∀ c, c.input = m.input →
      (change c).input = m.input ∧ change' (m.cursor c) = m.cursor (change c)) :
    m.Moves Eq (modify change) (modify change') := by
  rintro c reads _ _ ⟨⟩
  obtain ⟨reads, same⟩ := changes c reads
  exact ⟨reads, (), congrArg (EStateM.Result.ok ()) same, rfl⟩

theorem moves_handBack : m.Moves Eq Cursor.handBack Cursor.handBack := by
  intro c reads
  by_cases out : c.openMarks = 0
  · intro value d ran
    simp only [Cursor.handBack, bind_apply, get_apply, if_pos out] at ran
    cases ran
  · have still : (m.cursor c).openMarks ≠ 0 := fun none => out (Nat.add_eq_zero_iff.1 none).1
    have fewer : { m.cursor c with openMarks := (m.cursor c).openMarks - 1 } =
        m.cursor { c with openMarks := c.openMarks - 1 } := by
      have marks : c.openMarks + m.marks - 1 = c.openMarks - 1 + m.marks := by omega
      unfold cursor
      rw [marks]
    rw [Cursor.handBack_eq out, Cursor.handBack_eq still, fewer]
    exact moved_ok reads rfl

theorem moves_mark : m.Moves (fun mark mark' => mark' = m.mark mark) Cursor.mark Cursor.mark := by
  intro c reads
  have marked : (m.cursor c).marked = m.cursor c.marked := by
    have marks : c.openMarks + m.marks + 1 = c.openMarks + 1 + m.marks := by omega
    unfold cursor Cursor.marked
    rw [marks, Array.push_append]
  have place : (m.cursor c).place = m.mark c.place := by
    unfold Cursor.place
    rw [size_cursor]
    rfl
  rw [Cursor.mark_eq, Cursor.mark_eq, marked]
  exact moved_ok reads place

theorem moves_release (mark : Mark) :
    m.Moves Eq (Cursor.release mark) (Cursor.release (m.mark mark)) :=
  moves_handBack

/-- Going back to a mark forgets the same part of both records. -/
theorem shrink_cursor (c : Cursor) (mark : Mark) :
    { m.cursor c with
        position := mark.position, events := (m.cursor c).events.shrink (m.mark mark).event } =
      m.cursor { c with position := mark.position, events := c.events.shrink mark.event } := by
  have events : (m.before ++ c.events).shrink (m.before.size + mark.event) =
      m.before ++ c.events.shrink mark.event := by
    apply Array.toList_inj.1
    rw [Array.toList_shrink, Array.toList_append, Array.toList_append, Array.toList_shrink,
      ← Array.length_toList, List.take_length_add_append]
  unfold cursor Enclosure.mark
  rw [events]

theorem moves_rollback (mark : Mark) :
    m.Moves Eq (Cursor.rollback mark) (Cursor.rollback (m.mark mark)) :=
  moves_bind moves_handBack fun _ _ _ => moves_modify fun c reads =>
    ⟨reads, shrink_cursor c mark⟩

theorem moves_takeBack (mark : Mark) :
    m.Moves (fun snapshot snapshot' => snapshot' = m.snapshot snapshot)
      (Cursor.takeBack mark) (Cursor.takeBack (m.mark mark)) := by
  refine moves_get fun c reads => moved_guard ?_ ?_
  · rw [size_cursor]
    exact Nat.add_lt_add_iff_left
  · refine moves_bind moves_handBack (fun _ _ _ c reads => ?_) c reads
    have taken : (m.cursor c).events.extract (m.mark mark).event (m.cursor c).events.size =
        c.events.extract mark.event c.events.size := by
      rw [size_cursor, cursor, Enclosure.mark, Array.extract_append]
      simp
    rintro _ _ ⟨⟩
    exact ⟨reads, _, congrArg (EStateM.Result.ok _) (shrink_cursor c mark),
      congrArg (Snapshot.mk mark.position c.position (m.before.size + mark.event)) taken⟩

theorem moves_restore (snapshot : Snapshot) :
    m.Moves Eq (Cursor.restore snapshot) (Cursor.restore (m.snapshot snapshot)) := by
  refine moves_get fun c reads => moved_guard ?_ ?_
  · rw [size_cursor]
    exact or_congr Iff.rfl (not_congr Nat.add_left_cancel_iff)
  · have replayed : { m.cursor c with
          position := snapshot.stop, events := (m.cursor c).events ++ snapshot.events } =
        m.cursor { c with position := snapshot.stop, events := c.events ++ snapshot.events } := by
      unfold cursor
      rw [Array.append_assoc]
    exact replayed ▸ moved_ok reads rfl

theorem moves_report (diagnostic : Diagnostic) :
    m.Moves Eq (Cursor.report diagnostic) (Cursor.report diagnostic) := by
  refine moves_modify fun c reads => ⟨reads, ?_⟩
  unfold cursor
  dsimp only
  rw [Array.push_append]

/-- A related place is added to a diagnostic that has just been made. -/
theorem moves_report_annotate (diagnostic : Diagnostic) (related : Related) :
    m.Moves Eq (do Cursor.report diagnostic; Cursor.annotate related)
      (do Cursor.report diagnostic; Cursor.annotate related) := by
  have both : (do Cursor.report diagnostic; Cursor.annotate related : Cursor.Step Unit) =
      Cursor.report { diagnostic with related := diagnostic.related ++ [related] } := by
    funext c
    rw [bind_apply, Cursor.report_eq, Cursor.report_eq]
    exact Cursor.annotate_eq c 0 [] related diagnostic
  rw [both]
  exact moves_report _

theorem moves_advance : m.Moves Eq Cursor.advance Cursor.advance := by
  refine moves_get fun c reads => ?_
  have here : (m.cursor c).significant[(m.cursor c).position]? = c.significant[c.position]? := rfl
  rw [here]
  cases c.significant[c.position]? with
  | none => rintro value d ⟨⟩
  | some index =>
      have taken : { m.cursor c with
            position := c.position + 1, events := (m.cursor c).events.push (.token index) } =
          m.cursor { c with position := c.position + 1, events := c.events.push (.token index) } := by
        unfold cursor
        rw [Array.push_append]
      rintro _ _ ⟨⟩
      exact ⟨reads, (), congrArg (EStateM.Result.ok ()) taken, rfl⟩

theorem moves_complete (mark : Mark) (id : ElementId) :
    m.Moves Eq (Cursor.complete mark id) (Cursor.complete (m.mark mark) id) := by
  refine moves_get fun c reads => moved_guard ?_ ?_
  · rw [size_cursor]
    exact Nat.add_le_add_iff_left
  · refine moves_bind moves_handBack (fun _ _ _ => ?_) c reads
    refine moves_modify fun c reads => ⟨reads, ?_⟩
    unfold cursor Enclosure.mark
    dsimp only
    rw [Array.setIfInBounds_append_right (Nat.le_add_right _ _), Nat.add_sub_cancel_left,
      Array.push_append]

end Moves

end Enclosure

end Dialect
